/-
**Candles of a range from the store, from a fallback provider, or from both.**

The first stored timestamp cuts the time in two: before it the fallback provider answers, from it on
the store.  A range on one side is answered by one of them, and one across the cut by both, if the
symbol is compatible.  Only the answer across the cut is put in order and cut to the limit.  A range
of the store is returned whatever its length, and the answer of the provider as it came.

Main definitions:

* `CandleStore.getEarliestTimestamp` — the first stored timestamp;
* `CanonicalTz` — the canonical time zone;
* `resolveSource`, `stitchCandles`, `getCandlesWithSource` — the service;
* `CandleStitching.StitchContract` — what it should do;
* `CandleStitching.KeepsContract` — when it does.

Main results:

* `CandleStitching.sorted_stitchCandles`, `CandleStitching.exists_stitchCandles_iff` — merging;
* `CandleStitching.readRange_latest_iff` — a range of the store;
* `CandleStitching.contract_iff` — exactly when the contract is kept;
* `CandleStitching.limit_ignored` — an answer of the provider that is too long.
-/

import Brokerage.CandleSeries
import Brokerage.GapValidator
import Brokerage.LatestRows

set_option relaxedAutoImplicit false
set_option autoImplicit false

namespace CandleStore

/-- The candles of the store, file by file. -/
def storedCandles (z : Zones) (files : Files) : List Candle :=
  files.sortedKeys.flatMap fun month => readCsvFile z files month

/-- The first timestamp of the first file that has one. -/
def getEarliestTimestamp (z : Zones) (files : Files) : Option AwareDatetime :=
  files.sortedKeys.findSome? fun month =>
    (readCsvFile z files month).head?.map Candle.timestamp

end CandleStore

/-! ### The canonical zone -/

/-- The conversion of epochs to the canonical time zone, that of New York.  It raises where there is
no datetime, before and after those that there are. -/
structure CanonicalTz (z : Zones) where
  fromtimestamp : ℤ → Option AwareDatetime
  zone_eq : ∀ {ts d}, fromtimestamp ts = some d → d.zone = .newYork
  instant_eq : ∀ {ts d}, fromtimestamp ts = some d → z.instant d = 1000000 * ts
  between : ∀ {a b c : ℤ} {d e : AwareDatetime}, a ≤ b → b ≤ c → fromtimestamp a = some d →
    fromtimestamp c = some e → ∃ f, fromtimestamp b = some f

/-- New York is behind UTC, by less than a day. -/
def Zones.West (z : Zones) : Prop :=
  ∀ wall fold, -86400 < z.newYork wall fold ∧ z.newYork wall fold ≤ 0

/-! ### The service -/

/-- The status of a symbol in the registry of the compatibility probe. -/
inductive CompatStatus
  | pass
  | fail
  | unknown
  deriving DecidableEq

inductive SourceType
  | primary
  | fallback
  | mixed
  | deny
  deriving DecidableEq

/-- Where the candles of a range come from. -/
def resolveSource (sinceTs toTs : ℤ) (cutoverTs : Option ℤ) (compatStatus : CompatStatus) :
    SourceType :=
  match cutoverTs with
  | none => .fallback
  | some cutover =>
      if toTs ≤ cutover then .fallback
      else if cutover ≤ sinceTs then .primary
      else if compatStatus = .pass then .mixed
      else .deny

/-- The candles of the fallback before the cut and those of the store from it on, by epoch. -/
def stitchCandles (z : Zones) (primaryCandles fallbackCandles : List Candle) (cutoverTs : ℤ) :
    List Candle :=
  let byTs := fallbackCandles.foldl (fun d c =>
    if c.epoch z < cutoverTs then d.set (c.epoch z) c else d) Dict.empty
  let byTs := primaryCandles.foldl (fun d c =>
    if cutoverTs ≤ c.epoch z then d.set (c.epoch z) c else d) byTs
  byTs.sortedKeys.filterMap byTs.get?

/-- What a request is refused with, or what is raised. -/
inductive StitchError
  | mixedSourceNotAllowed
  | fallbackNotAvailable
  | fetchFailed
  | dateOutOfRange
  deriving DecidableEq

structure StitchAnswer where
  range : CandleRange
  source : SourceType
  cutoverTs : Option ℤ
  deriving DecidableEq

/-- A value that is there, or else an error. -/
def orRaise {α : Type} (e : StitchError) : Option α → Except StitchError α
  | none => .error e
  | some a => .ok a

/-- A provider of candles; a request that has no answer raises. -/
abbrev FallbackProvider := AwareDatetime → AwareDatetime → Option (List Candle)

section Service

variable (z : Zones) (tz : CanonicalTz z) (files : CandleStore.Files)

/-- The epoch of the first stored timestamp. -/
def cutoverTs : Option ℤ :=
  (CandleStore.getEarliestTimestamp z files).map fun d => (z.instant d).tdiv 1000000

def getCandlesWithSource (sinceTs toTs : ℤ) (limit : ℕ) (fallbackProvider : Option FallbackProvider)
    (compatStatus : CompatStatus) : Except StitchError StitchAnswer := do
  let start ← orRaise .dateOutOfRange (tz.fromtimestamp sinceTs)
  let end_ ← orRaise .dateOutOfRange (tz.fromtimestamp toTs)
  match resolveSource sinceTs toTs (cutoverTs z files) compatStatus with
  | .deny => .error .mixedSourceNotAllowed
  | .primary =>
      let range ← orRaise .dateOutOfRange (CandleStore.readRange z files start end_ true)
      .ok ⟨range, .primary, none⟩
  | .fallback =>
      let fetchOhlcv ← orRaise .fallbackNotAvailable fallbackProvider
      let candles ← orRaise .fetchFailed (fetchOhlcv start end_)
      let range ← orRaise .dateOutOfRange (candlesToCandleRange z candles start end_)
      .ok ⟨range, .fallback, none⟩
  | .mixed =>
      let fetchOhlcv ← orRaise .fallbackNotAvailable fallbackProvider
      -- a range across the cut has a cut
      let cutover ← orRaise .dateOutOfRange (cutoverTs z files)
      let cutoverDt ← orRaise .dateOutOfRange (tz.fromtimestamp cutover)
      let fallbackCandles ← orRaise .fetchFailed (fetchOhlcv start cutoverDt)
      let primaryRng ← orRaise .dateOutOfRange
        (CandleStore.readRange z files cutoverDt end_ true)
      let merged := stitchCandles z primaryRng.candles fallbackCandles cutover
      let merged := if limit ≠ 0 ∧ limit < merged.length then merged.rtake limit else merged
      let range ← orRaise .dateOutOfRange (candlesToCandleRange z merged start end_)
      .ok ⟨range, .mixed, some cutover⟩

end Service

namespace CandleStitching

open CandleStore (Files)
open LatestRows (Latest)

/-! ### The contract -/

/-- The files follow one another in time, and every candle is in the file of the month that UTC or
New York shows for it. -/
structure Content (z : Zones) (files : Files) : Prop where
  chronological : CandleStore.Chronological z files
  filed : ∀ month, ∀ c ∈ CandleStore.readCsvFile z files month,
    month = c.timestamp.month ∨
      ∃ b : AwareDatetime, b.zone = .newYork ∧ z.instant b = c.instant z ∧ month = b.month

/-- The candles of a list in a range of epochs. -/
def candlesIn (z : Zones) (lo hi : ℤ) (cs : List Candle) : List Candle :=
  cs.filter fun c => lo ≤ c.epoch z ∧ c.epoch z < hi

section Contract

variable (z : Zones) (tz : CanonicalTz z) (files : Files) (sinceTs toTs : ℤ) (limit : ℕ)
  (fetchOhlcv : AwareDatetime → AwareDatetime → List Candle) (compatStatus : CompatStatus)

/-- What the fallback provider answers to the request that it gets, if it gets one. -/
def fallbackAnswer : List Candle :=
  match tz.fromtimestamp sinceTs, tz.fromtimestamp toTs,
      resolveSource sinceTs toTs (cutoverTs z files) compatStatus with
  | some start, some end_, .fallback => fetchOhlcv start end_
  | some start, some _, .mixed =>
      match (cutoverTs z files).bind tz.fromtimestamp with
      | some cutoverDt => fetchOhlcv start cutoverDt
      | none => []
  | _, _, _ => []

/-- The epochs of the range for which there is a candle: from the cut on in the store, and before
it in the answer of the fallback. -/
def available : Set ℤ :=
  {t | sinceTs ≤ t ∧ t < toTs ∧
    ((∃ cutover, cutoverTs z files = some cutover ∧ cutover ≤ t ∧
        ∃ c ∈ CandleStore.storedCandles z files, c.epoch z = t) ∨
      ((∀ cutover, cutoverTs z files = some cutover → t < cutover) ∧
        ∃ c ∈ fallbackAnswer z tz files sinceTs toTs fetchOhlcv compatStatus, c.epoch z = t))}

/-- The candles of an answer are the latest ones of the range, each from its own source. -/
structure GoodAnswer (cs : List Candle) : Prop where
  latest : Latest (Candle.epoch z) limit
    (available z tz files sinceTs toTs fetchOhlcv compatStatus) cs
  primary : ∀ c ∈ cs, ∀ cutover, cutoverTs z files = some cutover → cutover ≤ c.epoch z →
    c ∈ CandleStore.storedCandles z files
  fallback : ∀ c ∈ cs, (∀ cutover, cutoverTs z files = some cutover → c.epoch z < cutover) →
    c ∈ fallbackAnswer z tz files sinceTs toTs fetchOhlcv compatStatus

/-- The range lies across the cut, and the symbol is not compatible. -/
def Denied : Prop :=
  (∃ cutover, cutoverTs z files = some cutover ∧ sinceTs < cutover ∧ cutover < toTs) ∧
    compatStatus ≠ .pass

/-- What the service should do. -/
structure StitchContract : Prop where
  denied : getCandlesWithSource z tz files sinceTs toTs limit (some fun s e => some (fetchOhlcv s e))
    compatStatus = .error .mixedSourceNotAllowed ↔ Denied z files sinceTs toTs compatStatus
  answered : ¬ Denied z files sinceTs toTs compatStatus → ∃ answer,
    getCandlesWithSource z tz files sinceTs toTs limit (some fun s e => some (fetchOhlcv s e))
      compatStatus = .ok answer ∧
    GoodAnswer z tz files sinceTs toTs limit fetchOhlcv compatStatus answer.range.candles

/-- A range is read up to its end: the clock of the canonical zone at the end is not past the first
of the last month, and past the start of every month in whose file the range has a candle. -/
def ReadsAll (lo : ℤ) (end_ : AwareDatetime) : Prop :=
  end_.wall ≤ monthStart 119999 ∧ ∀ month, ∀ c ∈ CandleStore.readCsvFile z files month,
    lo ≤ c.epoch z → c.epoch z < toTs → monthStart month < end_.wall

/-- How many timestamps of an answer of the fallback lie between two epochs. -/
def countIn (lo hi : ℤ) (cs : List Candle) : ℕ :=
  ((cs.map (Candle.epoch z)).toFinset.filter fun t => lo ≤ t ∧ t < hi).card

/-- When an answer keeps the contract.  A range of the store is read up to its end and has at most
`limit` candles; an answer of the fallback alone is ascending, in the range and not longer than
`limit` itself; and across the cut the fallback answers nothing before the range, or there are
`limit` candles in it. -/
def KeepsRange (start end_ : AwareDatetime) : Prop :=
  match resolveSource sinceTs toTs (cutoverTs z files) compatStatus with
  | .deny => True
  | .primary => ReadsAll z files toTs sinceTs end_ ∧
      (candlesIn z sinceTs toTs (CandleStore.storedCandles z files)).length ≤ limit
  | .fallback => (CursorPages.Sorted (Candle.epoch z) (fetchOhlcv start end_) ∧
      (∀ c ∈ fetchOhlcv start end_, sinceTs ≤ c.epoch z ∧ c.epoch z < toTs) ∧
      (fetchOhlcv start end_).length ≤ limit) ∧
      (GapValidator.validate z (fetchOhlcv start end_) start end_).isSome
  | .mixed => ∃ cutover cutoverDt, cutoverTs z files = some cutover ∧
      tz.fromtimestamp cutover = some cutoverDt ∧
      (ReadsAll z files toTs cutover end_ ∧
        ((∀ c ∈ fetchOhlcv start cutoverDt, sinceTs ≤ c.epoch z) ∨
          limit ≤ countIn z sinceTs cutover (fetchOhlcv start cutoverDt) +
            (candlesIn z cutover toTs (CandleStore.storedCandles z files)).length)) ∧
      (end_.add? (-minuteMicros)).isSome

/-- When the service keeps its contract: the bounds of the range are datetimes, and the answer keeps
it. -/
def KeepsContract : Prop :=
  ∃ start end_, tz.fromtimestamp sinceTs = some start ∧ tz.fromtimestamp toTs = some end_ ∧
    KeepsRange z tz files sinceTs toTs limit fetchOhlcv compatStatus start end_

end Contract

/-! ### The candles of the store -/

variable {z : Zones} {tz : CanonicalTz z} {files : Files}

/-- A stored timestamp is a full second of UTC. -/
theorem instant_of_mem {month : ℤ} {c : Candle} (h : c ∈ CandleStore.readCsvFile z files month) :
    c.instant z = 1000000 * c.epoch z := by
  rw [CandleStore.readCsvFile, CandleStore.mem_sortByTimestamp, List.mem_filterMap] at h
  obtain ⟨row, -, hrow⟩ := h
  obtain ⟨d, hd, rfl⟩ := Option.map_eq_some_iff.1 hrow
  obtain ⟨hzone, hwall, -⟩ := utcFromTimestamp_eq_some hd
  have hinst : z.instant d = 1000000 * row.tsEpoch := (Zones.instant_utc hzone).trans hwall
  rw [Candle.epoch, Candle.instant, hinst, Int.mul_tdiv_cancel_left _ (by decide)]

theorem mem_storedCandles {c : Candle} : c ∈ CandleStore.storedCandles z files ↔
    ∃ month, c ∈ CandleStore.readCsvFile z files month := by
  rw [CandleStore.storedCandles, List.mem_flatMap]
  constructor
  · rintro ⟨month, -, hc⟩
    exact ⟨month, hc⟩
  · rintro ⟨month, hc⟩
    refine ⟨month, Dict.mem_sortedKeys.2 ?_, hc⟩
    -- a month without a file has no candle
    by_contra hmonth
    rw [CandleStore.readCsvFile, Dict.get?_eq_none_iff.2 hmonth] at hc
    cases hc

theorem epoch_lt_iff {m n : ℤ} {a b : Candle} (ha : a ∈ CandleStore.readCsvFile z files m)
    (hb : b ∈ CandleStore.readCsvFile z files n) :
    a.instant z < b.instant z ↔ a.epoch z < b.epoch z := by
  rw [instant_of_mem ha, instant_of_mem hb]
  omega

/-- The candles of the store are in the order of their epochs. -/
theorem sorted_storedCandles (hfiles : Content z files) :
    CursorPages.Sorted (Candle.epoch z) (CandleStore.storedCandles z files) := by
  refine List.pairwise_flatMap.2 ⟨fun month _ => ?_, ?_⟩
  · refine (List.pairwise_map.1 (hfiles.chronological.sorted month)).imp_of_mem ?_
    exact fun ha hb hab => (epoch_lt_iff ha hb).1 hab
  · refine (Dict.sortedKeys_pairwise files).imp fun hmn a ha b hb => ?_
    exact (epoch_lt_iff ha hb).1 (hfiles.chronological.months _ _ hmn a ha b hb)

/-- A candle stands in one file. -/
theorem month_unique (hfiles : Content z files) {m n : ℤ} {a b : Candle}
    (ha : a ∈ CandleStore.readCsvFile z files m) (hb : b ∈ CandleStore.readCsvFile z files n)
    (h : a.epoch z = b.epoch z) : m = n := by
  rcases lt_trichotomy m n with hlt | heq | hlt
  · have := (epoch_lt_iff ha hb).1 (hfiles.chronological.months _ _ hlt a ha b hb)
    omega
  · exact heq
  · have := (epoch_lt_iff hb ha).1 (hfiles.chronological.months _ _ hlt b hb a ha)
    omega

/-- The cut is the epoch of the first stored candle. -/
theorem cutoverTs_eq : cutoverTs z files =
    (CandleStore.storedCandles z files).head?.map (Candle.epoch z) := by
  rw [cutoverTs, CandleStore.getEarliestTimestamp, CandleStore.storedCandles, List.head?_flatMap]
  induction files.sortedKeys with
  | nil => rfl
  | cons month months ih =>
      rw [List.findSome?_cons, List.findSome?_cons]
      cases h : (CandleStore.readCsvFile z files month).head? with
      | none => exact ih
      | some c => rfl

/-- No stored candle comes before the cut, and one is at it. -/
theorem cutover_spec (hfiles : Content z files) {cutover : ℤ}
    (h : cutoverTs z files = some cutover) :
    (∃ c ∈ CandleStore.storedCandles z files, c.epoch z = cutover) ∧
      ∀ c ∈ CandleStore.storedCandles z files, cutover ≤ c.epoch z := by
  rw [cutoverTs_eq] at h
  obtain ⟨first, hfirst, rfl⟩ := Option.map_eq_some_iff.1 h
  have hsorted := sorted_storedCandles hfiles
  refine ⟨⟨first, List.mem_of_head? hfirst, rfl⟩, fun c hc => ?_⟩
  cases hlist : CandleStore.storedCandles z files with
  | nil =>
      rw [hlist] at hfirst
      cases hfirst
  | cons first' more =>
      rw [hlist] at hfirst hsorted hc
      obtain rfl := Option.some.inj hfirst
      rcases List.mem_cons.1 hc with rfl | hc
      · exact le_rfl
      · exact (List.rel_of_pairwise_cons hsorted hc).le

/-- Writes that the files can hold leave such files. -/
theorem content_of_inv {zones : Zone → Prop} (h : CandleStore.Inv z zones files)
    (hutc : zones .utc) : Content z files := by
  have hmonth : ∀ month, ∀ c ∈ CandleStore.readCsvFile z files month,
      month = monthOf (c.instant z) := fun month c hc =>
    (((h month).held c hc).monthAt_eq (.utc hutc)).symm
  refine ⟨⟨fun month => (h month).pairwise_lt, fun m n hmn a ha b hb => ?_⟩,
    fun month c hc => Or.inl (h.month_eq hutc hc).symm⟩
  rw [hmonth m a ha, hmonth n b hb] at hmn
  by_contra hle
  have hspec := (monthOf_spec (b.instant z)).1
  have hlt := monthOf_lt_iff.1 hmn
  omega

/-! ### Reading a range of the store -/

/-- No candle from a datetime of New York on stands in a file of an earlier month than its own. -/
theorem month_le_of_filed (hz : z.MonthsKeep) (hwest : z.West) (hfiles : Content z files)
    {start : AwareDatetime} (hzone : start.zone = .newYork) {month : ℤ} {c : Candle}
    (hc : c ∈ CandleStore.readCsvFile z files month) (hle : z.instant start ≤ c.instant z) :
    start.month ≤ month := by
  rcases hfiles.filed month c hc with rfl | ⟨b, hb, hinst, rfl⟩
  · -- UTC shows a later reading than New York
    have hutc : c.instant z = c.timestamp.wall :=
      Zones.instant_utc (CandleStore.zone_of_mem_readCsvFile hc)
    have hoffset := (hwest start.wall start.fold).2
    have hwall : start.wall ≤ c.timestamp.wall := by
      rw [← hutc]
      rw [Zones.instant, Zones.utcoffset, hzone] at hle
      dsimp only at hle
      omega
    have hspec := (monthOf_spec c.timestamp.wall).2
    exact Int.lt_add_one_iff.1 (monthOf_lt_iff.2 (hwall.trans_lt hspec))
  · exact Zones.month_mono hz (hzone.trans hb.symm) (hle.trans_eq hinst.symm)

/-- A range of the store: what stands in the files of the months that start before its end, by the
clock of the canonical zone. -/
theorem readRange_spec (hz : z.MonthsKeep) (hwest : z.West) (hfiles : Content z files) {lo hi : ℤ}
    {start end_ : AwareDatetime} (hs : tz.fromtimestamp lo = some start)
    (he : tz.fromtimestamp hi = some end_) (hend : end_.wall ≤ monthStart 119999) :
    ∃ range, CandleStore.readRange z files start end_ true = some range ∧
      CursorPages.Sorted (Candle.epoch z) range.candles ∧
      ∀ c, c ∈ range.candles ↔ lo ≤ c.epoch z ∧ c.epoch z < hi ∧
        ∃ month, c ∈ CandleStore.readCsvFile z files month ∧ monthStart month < end_.wall := by
  have hleft : start.startOfMonth.month + CandleStore.monthsLeft start = 120000 := by
    have := start.month_max
    rw [AwareDatetime.startOfMonth_month, CandleStore.monthsLeft]
    omega
  obtain ⟨cs, hcs, hsorted, hmem⟩ := CandleStore.mem_readMonths_zone hfiles.chronological
    ((tz.zone_eq hs).trans (tz.zone_eq he).symm) hend (CandleStore.monthsLeft start)
    (show start.startOfMonth.zone = start.zone from rfl) start.startOfMonth_wall hleft
  rw [AwareDatetime.startOfMonth_month, tz.instant_eq hs, tz.instant_eq he] at hmem
  refine ⟨_, by rw [CandleStore.readRange, hcs]; rfl, ?_, fun c => ?_⟩
  · refine (List.pairwise_map.1 hsorted).imp_of_mem fun ha hb hab => ?_
    obtain ⟨⟨_, -, -, ha⟩, -⟩ := (hmem _).1 ha
    obtain ⟨⟨_, -, -, hb⟩, -⟩ := (hmem _).1 hb
    exact (epoch_lt_iff ha hb).1 hab
  · refine (hmem c).trans ?_
    constructor
    · rintro ⟨⟨month, -, hvisited, hc⟩, hge, hlt⟩
      have hinst := instant_of_mem hc
      exact ⟨by omega, by omega, month, hc, hvisited⟩
    · rintro ⟨hge, hlt, month, hc, hvisited⟩
      have hinst := instant_of_mem hc
      refine ⟨⟨month, ?_, hvisited, hc⟩, by omega, by omega⟩
      refine month_le_of_filed hz hwest hfiles (tz.zone_eq hs) hc ?_
      rw [tz.instant_eq hs]
      omega

theorem readRange_eq_none {lo hi : ℤ} {start end_ : AwareDatetime}
    (hs : tz.fromtimestamp lo = some start) (he : tz.fromtimestamp hi = some end_)
    (hend : monthStart 119999 < end_.wall) :
    CandleStore.readRange z files start end_ true = none := by
  rw [CandleStore.readRange, CandleStore.readMonths_eq_none
    ((tz.zone_eq hs).trans (tz.zone_eq he).symm) hend _
    (show start.startOfMonth.zone = start.zone from rfl) start.startOfMonth_wall]
  rfl

theorem mem_candlesIn {lo hi : ℤ} {cs : List Candle} {c : Candle} :
    c ∈ candlesIn z lo hi cs ↔ c ∈ cs ∧ lo ≤ c.epoch z ∧ c.epoch z < hi := by
  rw [candlesIn, List.mem_filter, decide_eq_true_eq]

/-- A range that is read up to its end has all its candles. -/
theorem candles_eq_of_readsAll (hfiles : Content z files) {lo hi : ℤ} {end_ : AwareDatetime}
    {cs : List Candle} (hsorted : CursorPages.Sorted (Candle.epoch z) cs)
    (hmem : ∀ c, c ∈ cs ↔ lo ≤ c.epoch z ∧ c.epoch z < hi ∧
      ∃ month, c ∈ CandleStore.readCsvFile z files month ∧ monthStart month < end_.wall)
    (hreads : ReadsAll z files hi lo end_) :
    cs = candlesIn z lo hi (CandleStore.storedCandles z files) := by
  refine hsorted.eq_of_mem_iff ((sorted_storedCandles hfiles).sublist List.filter_sublist) fun c => ?_
  rw [hmem, mem_candlesIn, mem_storedCandles]
  constructor
  · rintro ⟨hge, hlt, month, hc, -⟩
    exact ⟨⟨month, hc⟩, hge, hlt⟩
  · rintro ⟨⟨month, hc⟩, hge, hlt⟩
    exact ⟨hge, hlt, month, hc, hreads.2 month c hc hge hlt⟩

/-- A stored candle of the range that is not read comes after all that are. -/
theorem lt_of_not_read (hfiles : Content z files) {end_ : AwareDatetime} {m n : ℤ} {a b : Candle}
    (ha : a ∈ CandleStore.readCsvFile z files m) (hm : monthStart m < end_.wall)
    (hb : b ∈ CandleStore.readCsvFile z files n) (hn : ¬ monthStart n < end_.wall) :
    a.epoch z < b.epoch z := by
  have hmn : m < n := monthStart_strictMono.lt_iff_lt.1 (hm.trans_le (not_lt.1 hn))
  exact (epoch_lt_iff ha hb).1 (hfiles.chronological.months m n hmn a ha b hb)

/-! ### Merging -/

/-- Writing those of some candles that have a property. -/
theorem foldl_set_if (p : Candle → Prop) [DecidablePred p] (cs : List Candle) (d : Dict ℤ Candle) :
    cs.foldl (fun d c => if p c then d.set (c.epoch z) c else d) d =
      d.setAll ((cs.filter p).map fun c => (c.epoch z, c)) := by
  induction cs generalizing d with
  | nil => rfl
  | cons c cs ih =>
      rw [List.foldl_cons, ih]
      by_cases h : p c
      · rw [if_pos h, List.filter_cons_of_pos (by simpa using h)]
        rfl
      · rw [if_neg h, List.filter_cons_of_neg (by simpa using h)]

theorem lookup_epoch {cs : List Candle} {k : ℤ} {c : Candle}
    (h : ((cs.map fun c => (c.epoch z, c)).reverse).lookup k = some c) :
    c ∈ cs ∧ c.epoch z = k := by
  obtain ⟨l₁, l₂, hl, -⟩ := List.lookup_eq_some_iff.1 h
  have hmem : (k, c) ∈ (cs.map fun c => (c.epoch z, c)).reverse := by
    rw [hl]
    exact List.mem_append_right _ List.mem_cons_self
  obtain ⟨c', hc', heq⟩ := List.mem_map.1 (List.mem_reverse.1 hmem)
  obtain ⟨rfl, rfl⟩ := Prod.mk.inj heq
  exact ⟨hc', rfl⟩

theorem exists_lookup_epoch {cs : List Candle} {c : Candle} (h : c ∈ cs) :
    ∃ c', ((cs.map fun c => (c.epoch z, c)).reverse).lookup (c.epoch z) = some c' := by
  rw [← Option.ne_none_iff_exists']
  intro hnone
  have hmem : (c.epoch z, c) ∈ (cs.map fun c => (c.epoch z, c)).reverse :=
    List.mem_reverse.2 (List.mem_map.2 ⟨c, h, rfl⟩)
  have hne := List.lookup_eq_none_iff.1 hnone _ hmem
  simp at hne

/-- The dictionary of the candles of both sources. -/
def stitched (z : Zones) (primary fallback : List Candle) (cutover : ℤ) : Dict ℤ Candle :=
  (Dict.empty.setAll ((fallback.filter fun c => c.epoch z < cutover).map
    fun c => (c.epoch z, c))).setAll
      ((primary.filter fun c => cutover ≤ c.epoch z).map fun c => (c.epoch z, c))

variable {primary answer : List Candle} {cutover : ℤ}

theorem stitchCandles_eq : stitchCandles z primary answer cutover =
    (stitched z primary answer cutover).sortedKeys.filterMap
      (stitched z primary answer cutover).get? := by
  rw [stitchCandles, foldl_set_if, foldl_set_if]
  rfl

theorem get?_stitched (k : ℤ) : (stitched z primary answer cutover).get? k =
    ((((primary.filter fun c => cutover ≤ c.epoch z).map fun c => (c.epoch z, c)).reverse).lookup
      k).or ((((answer.filter fun c => c.epoch z < cutover).map
        fun c => (c.epoch z, c)).reverse).lookup k) := by
  rw [stitched, Dict.get?_setAll, Dict.get?_setAll, Dict.get?_empty, Option.or_none]

/-- A merged candle stands under its epoch, and is of the source of its side of the cut. -/
theorem of_get?_stitched {k : ℤ} {c : Candle}
    (h : (stitched z primary answer cutover).get? k = some c) :
    c.epoch z = k ∧ (c ∈ primary ∧ cutover ≤ k ∨ c ∈ answer ∧ k < cutover) := by
  rw [get?_stitched, Option.or_eq_some_iff] at h
  rcases h with h | ⟨-, h⟩
  · obtain ⟨hmem, rfl⟩ := lookup_epoch h
    obtain ⟨hc, hle⟩ := List.mem_filter.1 hmem
    exact ⟨rfl, Or.inl ⟨hc, of_decide_eq_true hle⟩⟩
  · obtain ⟨hmem, rfl⟩ := lookup_epoch h
    obtain ⟨hc, hlt⟩ := List.mem_filter.1 hmem
    exact ⟨rfl, Or.inr ⟨hc, of_decide_eq_true hlt⟩⟩

theorem mem_stitchCandles {c : Candle} : c ∈ stitchCandles z primary answer cutover ↔
    (stitched z primary answer cutover).get? (c.epoch z) = some c := by
  rw [stitchCandles_eq, List.mem_filterMap]
  constructor
  · rintro ⟨k, -, hk⟩
    rw [(of_get?_stitched hk).1]
    exact hk
  · intro h
    exact ⟨_, Dict.mem_sortedKeys.2 (Dict.mem_keys_of_get? h), h⟩

/-- The merged candles are in the order of their epochs. -/
theorem sorted_stitchCandles :
    CursorPages.Sorted (Candle.epoch z) (stitchCandles z primary answer cutover) := by
  rw [stitchCandles_eq, CursorPages.Sorted, List.pairwise_filterMap]
  refine (Dict.sortedKeys_pairwise _).imp fun hlt a ha b hb => ?_
  rwa [(of_get?_stitched ha).1, (of_get?_stitched hb).1]

/-- There is a merged candle at an epoch just if the source of its side of the cut has one. -/
theorem exists_stitchCandles_iff {k : ℤ} :
    (∃ c ∈ stitchCandles z primary answer cutover, c.epoch z = k) ↔
      (cutover ≤ k ∧ ∃ c ∈ primary, c.epoch z = k) ∨
        (k < cutover ∧ ∃ c ∈ answer, c.epoch z = k) := by
  constructor
  · rintro ⟨c, hc, rfl⟩
    rcases (of_get?_stitched (mem_stitchCandles.1 hc)).2 with ⟨hc, hle⟩ | ⟨hc, hlt⟩
    · exact Or.inl ⟨hle, c, hc, rfl⟩
    · exact Or.inr ⟨hlt, c, hc, rfl⟩
  · intro h
    obtain ⟨c', hc'⟩ : ∃ c', (stitched z primary answer cutover).get? k = some c' := by
      rcases h with ⟨hle, c, hc, rfl⟩ | ⟨hlt, c, hc, rfl⟩
      · have hmem : c ∈ primary.filter fun c => cutover ≤ c.epoch z :=
          List.mem_filter.2 ⟨hc, decide_eq_true hle⟩
        obtain ⟨c', hc'⟩ := exists_lookup_epoch (z := z) hmem
        exact ⟨c', by rw [get?_stitched, hc', Option.some_or]⟩
      · have hmem : c ∈ answer.filter fun c => c.epoch z < cutover :=
          List.mem_filter.2 ⟨hc, decide_eq_true hlt⟩
        obtain ⟨c', hc'⟩ := exists_lookup_epoch (z := z) hmem
        rw [get?_stitched, hc']
        cases List.lookup (c.epoch z) _ with
        | none => exact ⟨c', rfl⟩
        | some c'' => exact ⟨c'', rfl⟩
    have hk := (of_get?_stitched hc').1
    exact ⟨c', mem_stitchCandles.2 (hk ▸ hc'), hk⟩

/-- How many merged candles there are from an epoch before the cut on. -/
theorem length_stitchCandles_from (answer : List Candle) {lo : ℤ} (hlo : lo < cutover)
    (hprimary : CursorPages.Sorted (Candle.epoch z) primary)
    (hcut : ∀ c ∈ primary, cutover ≤ c.epoch z) :
    ((stitchCandles z primary answer cutover).filter fun c => lo ≤ c.epoch z).length =
      countIn z lo cutover answer + primary.length := by
  have hmerged : CursorPages.Sorted (Candle.epoch z) (stitchCandles z primary answer cutover) :=
    sorted_stitchCandles
  have hnodup := hmerged.nodup_keys
  have hleft := List.toFinset_card_of_nodup (hnodup.sublist
    ((List.filter_sublist (p := fun c => decide (lo ≤ c.epoch z))).map (Candle.epoch z)))
  have hright := List.toFinset_card_of_nodup hprimary.nodup_keys
  rw [List.length_map] at hleft hright
  rw [← hleft, ← hright, countIn, ← Finset.card_union_of_disjoint]
  · congr 1
    ext k
    simp only [List.mem_toFinset, List.mem_map, List.mem_filter, decide_eq_true_eq,
      Finset.mem_union, Finset.mem_filter]
    constructor
    · rintro ⟨c, ⟨hc, hle⟩, rfl⟩
      rcases exists_stitchCandles_iff.1 ⟨c, hc, rfl⟩ with ⟨-, d, hd, hdc⟩ | ⟨hlt, d, hd, hdc⟩
      · exact Or.inr ⟨d, hd, hdc⟩
      · exact Or.inl ⟨⟨d, hd, hdc⟩, hle, hlt⟩
    · rintro (⟨⟨d, hd, rfl⟩, hle, hlt⟩ | ⟨d, hd, rfl⟩)
      · obtain ⟨c, hc, hcd⟩ := exists_stitchCandles_iff.2 (Or.inr ⟨hlt, d, hd, rfl⟩)
        exact ⟨c, ⟨hc, hcd ▸ hle⟩, hcd⟩
      · obtain ⟨c, hc, hcd⟩ := exists_stitchCandles_iff.2 (Or.inl ⟨hcut d hd, d, hd, rfl⟩)
        exact ⟨c, ⟨hc, hcd ▸ (hlo.le.trans (hcut d hd))⟩, hcd⟩
  · refine Finset.disjoint_left.2 fun k hk hk' => ?_
    obtain ⟨d, hd, rfl⟩ := List.mem_map.1 (List.mem_toFinset.1 hk')
    exact absurd (Finset.mem_filter.1 hk).2.2 (not_lt.2 (hcut d hd))

/-! ### The three ways to an answer -/

variable {sinceTs toTs : ℤ} {limit : ℕ} {compatStatus : CompatStatus}
  {fetchOhlcv : AwareDatetime → AwareDatetime → List Candle} {start end_ : AwareDatetime}

/-- What decides the source of a range. -/
theorem resolveSource_cases (sinceTs toTs : ℤ) (cutoverTs : Option ℤ)
    (compatStatus : CompatStatus) :
    (resolveSource sinceTs toTs cutoverTs compatStatus = .fallback ∧
        ∀ cutover, cutoverTs = some cutover → toTs ≤ cutover) ∨
      ∃ cutover, cutoverTs = some cutover ∧ cutover < toTs ∧
        ((resolveSource sinceTs toTs cutoverTs compatStatus = .primary ∧ cutover ≤ sinceTs) ∨
          (resolveSource sinceTs toTs cutoverTs compatStatus = .mixed ∧ sinceTs < cutover ∧
            compatStatus = .pass) ∨
          (resolveSource sinceTs toTs cutoverTs compatStatus = .deny ∧ sinceTs < cutover ∧
            compatStatus ≠ .pass)) := by
  cases cutoverTs with
  | none => exact Or.inl ⟨rfl, fun _ h => by cases h⟩
  | some cutover =>
      rw [resolveSource]
      split
      · rename_i hle
        refine Or.inl ⟨rfl, fun _ h => ?_⟩
        obtain rfl := Option.some.inj h
        exact hle
      · rename_i hcut
        refine Or.inr ⟨cutover, rfl, not_le.1 hcut, ?_⟩
        split
        · rename_i hle
          exact Or.inl ⟨rfl, hle⟩
        · rename_i hsince
          split
          · rename_i hpass
            exact Or.inr (Or.inl ⟨rfl, not_le.1 hsince, hpass⟩)
          · rename_i hpass
            exact Or.inr (Or.inr ⟨rfl, not_le.1 hsince, hpass⟩)

/-- A range of the store has the latest of its candles just if it is read up to its end and is not
longer than the limit. -/
theorem readRange_latest_iff (hfiles : Content z files) (hlimit : 1 ≤ limit) {lo hi : ℤ}
    {cs : List Candle} (hsorted : CursorPages.Sorted (Candle.epoch z) cs)
    (hmem : ∀ c, c ∈ cs ↔ lo ≤ c.epoch z ∧ c.epoch z < hi ∧
      ∃ month, c ∈ CandleStore.readCsvFile z files month ∧ monthStart month < end_.wall)
    (hend : end_.wall ≤ monthStart 119999) :
    Latest (Candle.epoch z) limit
        {t | lo ≤ t ∧ t < hi ∧ ∃ c ∈ CandleStore.storedCandles z files, c.epoch z = t} cs ↔
      ReadsAll z files hi lo end_ ∧
        (candlesIn z lo hi (CandleStore.storedCandles z files)).length ≤ limit := by
  have hsub : ∀ c ∈ cs, c.epoch z ∈
      {t | lo ≤ t ∧ t < hi ∧ ∃ c ∈ CandleStore.storedCandles z files, c.epoch z = t} := by
    intro c hc
    obtain ⟨hge, hlt, month, hfile, -⟩ := (hmem c).1 hc
    exact ⟨hge, hlt, c, mem_storedCandles.2 ⟨month, hfile⟩, rfl⟩
  have hafter : ∀ k ∈ {t | lo ≤ t ∧ t < hi ∧
      ∃ c ∈ CandleStore.storedCandles z files, c.epoch z = t},
      k ∉ cs.map (Candle.epoch z) → ∀ c ∈ cs, c.epoch z < k := by
    rintro k ⟨hge, hlt, d, hd, rfl⟩ hnot c hc
    obtain ⟨month, hfile⟩ := mem_storedCandles.1 hd
    obtain ⟨-, -, month', hfile', hread⟩ := (hmem c).1 hc
    refine lt_of_not_read hfiles hfile' hread hfile fun hvisited => hnot ?_
    exact List.mem_map_of_mem ((hmem d).2 ⟨hge, hlt, month, hfile, hvisited⟩)
  rw [LatestRows.latest_iff hlimit hsorted hsub hafter]
  constructor
  · rintro ⟨hall, hle⟩
    have hreads : ReadsAll z files hi lo end_ := by
      refine ⟨hend, fun month c hc hge hlt => ?_⟩
      obtain ⟨d, hd, hdc⟩ := List.mem_map.1
        (hall _ ⟨hge, hlt, c, mem_storedCandles.2 ⟨month, hc⟩, rfl⟩)
      obtain ⟨-, -, month', hfile, hread⟩ := (hmem d).1 hd
      rwa [month_unique hfiles hc hfile hdc.symm]
    exact ⟨hreads, by rwa [← candles_eq_of_readsAll hfiles hsorted hmem hreads]⟩
  · rintro ⟨hreads, hle⟩
    rw [← candles_eq_of_readsAll hfiles hsorted hmem hreads] at hle
    refine ⟨?_, hle⟩
    rintro k ⟨hge, hlt, d, hd, rfl⟩
    obtain ⟨month, hfile⟩ := mem_storedCandles.1 hd
    refine List.mem_map_of_mem ((hmem d).2 ⟨hge, hlt, month, hfile, ?_⟩)
    exact hreads.2 month d hfile hge hlt

/-- An answer of the fallback is the latest of itself just if it is in order, in the range and not
longer than the limit. -/
theorem answer_latest_iff {lo hi : ℤ} {cs : List Candle} :
    Latest (Candle.epoch z) limit {t | lo ≤ t ∧ t < hi ∧ ∃ c ∈ cs, c.epoch z = t} cs ↔
      CursorPages.Sorted (Candle.epoch z) cs ∧ (∀ c ∈ cs, lo ≤ c.epoch z ∧ c.epoch z < hi) ∧
        cs.length ≤ limit := by
  constructor
  · intro h
    refine ⟨h.sorted, fun c hc => ?_, h.length_le⟩
    obtain ⟨hge, hlt, -⟩ := h.mem_keys c hc
    exact ⟨hge, hlt⟩
  · rintro ⟨hsorted, hin, hle⟩
    refine LatestRows.latest_of_le hsorted (fun k => ?_) hle
    rw [List.mem_map]
    constructor
    · rintro ⟨-, -, c, hc, rfl⟩
      exact ⟨c, hc, rfl⟩
    · rintro ⟨c, hc, rfl⟩
      exact ⟨(hin c hc).1, (hin c hc).2, c, hc, rfl⟩

/-- The epochs of a range across the cut for which there is a candle. -/
def acrossKeys (z : Zones) (files : Files) (sinceTs toTs cutover : ℤ) (answer : List Candle) :
    Set ℤ :=
  {t | sinceTs ≤ t ∧ t < toTs ∧
    ((cutover ≤ t ∧ ∃ c ∈ CandleStore.storedCandles z files, c.epoch z = t) ∨
      (t < cutover ∧ ∃ c ∈ answer, c.epoch z = t))}

theorem stitch_split (z : Zones) (primary answer : List Candle) (cutover sinceTs : ℤ) :
    stitchCandles z primary answer cutover =
      (stitchCandles z primary answer cutover).filter (fun c => c.epoch z < sinceTs) ++
        (stitchCandles z primary answer cutover).filter fun c => sinceTs ≤ c.epoch z := by
  have hsorted : CursorPages.Sorted (Candle.epoch z) (stitchCandles z primary answer cutover) :=
    sorted_stitchCandles
  refine hsorted.eq_of_mem_iff ?_ fun c => ?_
  · refine List.pairwise_append.2 ⟨hsorted.sublist List.filter_sublist,
      hsorted.sublist List.filter_sublist, fun a ha b hb => ?_⟩
    have ha' := of_decide_eq_true (List.mem_filter.1 ha).2
    have hb' := of_decide_eq_true (List.mem_filter.1 hb).2
    exact ha'.trans_le hb'
  · rw [List.mem_append, List.mem_filter, List.mem_filter, ← and_or_left, decide_eq_true_eq,
      decide_eq_true_eq]
    exact (and_iff_left (lt_or_ge _ _)).symm

/-- The merged candles, cut to the limit, are the latest of the range just if the store is read up
to its end, and the fallback answers nothing before the range or there are enough candles in it. -/
theorem stitched_latest_iff (hfiles : Content z files) (hlimit : 1 ≤ limit)
    (hlt : sinceTs < cutover) (hto : cutover < toTs)
    (hsorted : CursorPages.Sorted (Candle.epoch z) primary)
    (hmem : ∀ c, c ∈ primary ↔ cutover ≤ c.epoch z ∧ c.epoch z < toTs ∧
      ∃ month, c ∈ CandleStore.readCsvFile z files month ∧ monthStart month < end_.wall)
    (hend : end_.wall ≤ monthStart 119999) :
    Latest (Candle.epoch z) limit (acrossKeys z files sinceTs toTs cutover answer)
        ((stitchCandles z primary answer cutover).rtake limit) ↔
      ReadsAll z files toTs cutover end_ ∧ ((∀ c ∈ answer, sinceTs ≤ c.epoch z) ∨
        limit ≤ countIn z sinceTs cutover answer +
          (candlesIn z cutover toTs (CandleStore.storedCandles z files)).length) := by
  have hprimary : ∀ c ∈ primary, cutover ≤ c.epoch z := fun c hc => ((hmem c).1 hc).1
  have hside : ∀ c ∈ stitchCandles z primary answer cutover,
      c ∈ primary ∧ cutover ≤ c.epoch z ∨ c ∈ answer ∧ c.epoch z < cutover :=
    fun c hc => (of_get?_stitched (mem_stitchCandles.1 hc)).2
  have hlength := length_stitchCandles_from answer hlt hsorted hprimary
  have hsplit := stitch_split z primary answer cutover sinceTs
  -- the merged candles before the range, and those from its start on
  set before := (stitchCandles z primary answer cutover).filter fun c => c.epoch z < sinceTs
    with hbefore_def
  set rest := (stitchCandles z primary answer cutover).filter fun c => sinceTs ≤ c.epoch z
    with hrest_def
  have hbefore : before = [] ↔ ∀ c ∈ answer, sinceTs ≤ c.epoch z := by
    rw [hbefore_def, List.filter_eq_nil_iff]
    constructor
    · intro h c hc
      by_contra hnot
      obtain ⟨d, hd, hdc⟩ := exists_stitchCandles_iff.2
        (Or.inr ⟨(not_le.1 hnot).trans hlt, c, hc, rfl⟩)
      exact h d hd (decide_eq_true (hdc ▸ not_le.1 hnot))
    · intro h c hc hbefore
      have hbefore := of_decide_eq_true hbefore
      rcases hside c hc with ⟨-, hle⟩ | ⟨hc, -⟩
      · omega
      · exact absurd (h c hc) (not_le.2 hbefore)
  have hkeys : ReadsAll z files toTs cutover end_ →
      ∀ k, k ∈ acrossKeys z files sinceTs toTs cutover answer ↔ k ∈ rest.map (Candle.epoch z) := by
    intro hreads k
    rw [candles_eq_of_readsAll hfiles hsorted hmem hreads] at hside hrest_def
    rw [List.mem_map]
    constructor
    · rintro ⟨hge, hltTo, hk⟩
      obtain ⟨c, hc, rfl⟩ : ∃ c ∈ stitchCandles z primary answer cutover, c.epoch z = k := by
        refine exists_stitchCandles_iff.2 (hk.imp_left ?_)
        rintro ⟨hle, c, hc, rfl⟩
        obtain ⟨month, hfile⟩ := mem_storedCandles.1 hc
        exact ⟨hle, c, (hmem c).2 ⟨hle, hltTo, month, hfile, hreads.2 month c hfile hle hltTo⟩, rfl⟩
      refine ⟨c, ?_, rfl⟩
      rw [hrest_def]
      rw [candles_eq_of_readsAll hfiles hsorted hmem hreads] at hc
      exact List.mem_filter.2 ⟨hc, decide_eq_true hge⟩
    · rintro ⟨c, hc, rfl⟩
      rw [hrest_def] at hc
      obtain ⟨hc, hge⟩ := List.mem_filter.1 hc
      rcases hside c hc with ⟨hc, hle⟩ | ⟨hc, hltCut⟩
      · obtain ⟨hstored, -, hltTo⟩ := mem_candlesIn.1 hc
        exact ⟨of_decide_eq_true hge, hltTo, Or.inl ⟨hle, c, hstored, rfl⟩⟩
      · exact ⟨of_decide_eq_true hge, hltCut.trans hto, Or.inr ⟨hltCut, c, hc, rfl⟩⟩
  constructor
  · intro h
    have hreads : ReadsAll z files toTs cutover end_ := by
      refine ⟨hend, fun month c hc hge hltTo => ?_⟩
      by_contra hnot
      have hstored : c ∈ CandleStore.storedCandles z files := mem_storedCandles.2 ⟨month, hc⟩
      -- the candle comes after all merged ones, and is not one of them
      have hafter : ∀ x ∈ (stitchCandles z primary answer cutover).rtake limit,
          x.epoch z < c.epoch z := by
        intro x hx
        rcases hside x (List.mem_of_mem_drop hx) with ⟨hx, -⟩ | ⟨-, hx⟩
        · obtain ⟨-, -, month', hfile, hread⟩ := (hmem x).1 hx
          exact lt_of_not_read hfiles hfile hread hc hnot
        · exact hx.trans_le hge
      rcases h.latest _ ⟨hlt.le.trans hge, hltTo, Or.inl ⟨hge, c, hstored, rfl⟩⟩ with
        hin | ⟨hfull, hbeforeAll⟩
      · obtain ⟨x, hx, hxc⟩ := List.mem_map.1 hin
        exact absurd (hafter x hx) (by rw [hxc]; exact lt_irrefl _)
      · obtain ⟨x, hx⟩ := List.exists_mem_of_length_pos (hfull ▸ Nat.one_pos.trans_le hlimit)
        exact lt_asymm (hafter x hx) (hbeforeAll x hx)
    refine ⟨hreads, ?_⟩
    rw [← candles_eq_of_readsAll hfiles hsorted hmem hreads, ← hlength, ← hbefore]
    have hin : ∀ x ∈ (before ++ rest).rtake limit, sinceTs ≤ x.epoch z := by
      intro x hx
      rw [← hsplit] at hx
      exact (h.mem_keys x hx).1
    refine (LatestRows.forall_rtake_append (fun x hx => ?_) fun x hx => ?_).1 hin
    · exact not_le.2 (of_decide_eq_true (List.mem_filter.1 hx).2)
    · exact of_decide_eq_true (List.mem_filter.1 hx).2
  · rintro ⟨hreads, h⟩
    rw [← candles_eq_of_readsAll hfiles hsorted hmem hreads, ← hlength, ← hbefore] at h
    have hend : (stitchCandles z primary answer cutover).rtake limit = rest.rtake limit := by
      rw [hsplit]
      rcases h with h | h
      · rw [h, List.nil_append]
      · exact LatestRows.rtake_append_of_le h
    rw [hend]
    exact LatestRows.latest_rtake (sorted_stitchCandles.sublist List.filter_sublist) (hkeys hreads)

/-! ### Reports on an answer -/

theorem gapsFrom_isSome {cs : List Candle} {c : Candle}
    (hnext : ∀ d ∈ c :: cs, (d.timestamp.add? minuteMicros).isSome)
    (hend : (end_.add? (-minuteMicros)).isSome) : (GapValidator.gapsFrom z c cs end_).isSome := by
  induction cs generalizing c with
  | nil =>
      obtain ⟨e, he⟩ := Option.isSome_iff_exists.1 hend
      rw [GapValidator.gapsFrom, GapValidator.gapAfter, he]
      dsimp only
      split
      · rw [Option.isSome_map]
        exact hnext c List.mem_cons_self
      · rfl
  | cons next cs ih =>
      obtain ⟨e, he⟩ := Option.isSome_iff_exists.1 (hnext c List.mem_cons_self)
      obtain ⟨more, hmore⟩ := Option.isSome_iff_exists.1
        (ih fun d hd => hnext d (List.mem_cons_of_mem _ hd))
      rw [GapValidator.gapsFrom, GapValidator.gapBetween, he, hmore]
      rfl

/-- The minute before the end is needed for any candles. -/
theorem isSome_of_gapsFrom {cs : List Candle} {c : Candle}
    (h : (GapValidator.gapsFrom z c cs end_).isSome) : (end_.add? (-minuteMicros)).isSome := by
  induction cs generalizing c with
  | nil =>
      rw [GapValidator.gapsFrom, GapValidator.gapAfter] at h
      cases hadd : end_.add? (-minuteMicros) with
      | none =>
          rw [hadd] at h
          cases h
      | some e => rfl
  | cons next cs ih =>
      rw [GapValidator.gapsFrom] at h
      split at h
      · rename_i hmore
        exact ih (by rw [hmore]; rfl)
      · cases h

theorem validate_isSome {cs : List Candle}
    (hnext : ∀ d ∈ cs, (d.timestamp.add? minuteMicros).isSome)
    (hend : (end_.add? (-minuteMicros)).isSome) :
    (GapValidator.validate z cs start end_).isSome := by
  cases cs with
  | nil => rfl
  | cons c cs =>
      rw [GapValidator.validate, GapValidator.findGaps, Option.isSome_map, Option.isSome_map]
      exact gapsFrom_isSome hnext hend

theorem isSome_of_validate {cs : List Candle} (hne : cs ≠ [])
    (h : (GapValidator.validate z cs start end_).isSome) :
    (end_.add? (-minuteMicros)).isSome := by
  cases cs with
  | nil => exact absurd rfl hne
  | cons c cs =>
      rw [GapValidator.validate, GapValidator.findGaps, Option.isSome_map, Option.isSome_map] at h
      exact isSome_of_gapsFrom h

theorem instant_lt_of_epoch_lt {c : Candle} {t : ℤ} (h : c.epoch z < t) :
    c.instant z < 1000000 * t := by
  rw [Candle.epoch] at h
  rcases le_or_gt 0 (c.instant z) with hpos | hneg
  · rw [Int.tdiv_eq_ediv_of_nonneg hpos] at h
    omega
  · have heq := Int.neg_tdiv (c.instant z) 1000000
    rw [Int.tdiv_eq_ediv_of_nonneg (by omega)] at heq
    omega

/-- Before the last month of all there is a next minute. -/
theorem nextMinute_isSome (hwest : z.West) {c : Candle} (he : tz.fromtimestamp toTs = some end_)
    (hend : end_.wall ≤ monthStart 119999) (h : c.epoch z < toTs) :
    (c.timestamp.add? minuteMicros).isSome := by
  have hlt := instant_lt_of_epoch_lt h
  have hinst := tz.instant_eq he
  have hyear : monthStart 119999 + 172800000000 ≤ monthStart 120000 := by decide +kernel
  have hoffset : -86400 < z.utcoffset c.timestamp ∧ z.utcoffset c.timestamp ≤ 0 := by
    rw [Zones.utcoffset]
    split
    · decide
    · exact hwest _ _
  have hend' := hwest end_.wall end_.fold
  rw [Candle.instant, Zones.instant] at hlt
  rw [Zones.instant, Zones.utcoffset, tz.zone_eq he] at hinst
  dsimp only at hinst
  have hmin := c.timestamp.minyear
  have hin : monthStart 12 ≤ c.timestamp.wall + minuteMicros ∧
      c.timestamp.wall + minuteMicros < monthStart 120000 := by
    rw [minuteMicros]
    exact ⟨by omega, by omega⟩
  rw [AwareDatetime.add?, dif_pos hin]
  rfl

/-! ### When the contract is kept -/

theorem denied_iff : Denied z files sinceTs toTs compatStatus ↔
    resolveSource sinceTs toTs (cutoverTs z files) compatStatus = .deny := by
  rcases resolveSource_cases sinceTs toTs (cutoverTs z files) compatStatus with
    ⟨hsource, hcut⟩ | ⟨cutover, hcut, hto, h⟩
  · rw [hsource]
    refine iff_of_false ?_ (by decide)
    rintro ⟨⟨cutover, hcutover, -, hlt⟩, -⟩
    exact absurd (hcut cutover hcutover) (not_le.2 hlt)
  · rcases h with ⟨hsource, hle⟩ | ⟨hsource, -, hpass⟩ | ⟨hsource, hlt, hpass⟩
    · rw [hsource]
      refine iff_of_false ?_ (by decide)
      rintro ⟨⟨cutover', hcutover, hlt, -⟩, -⟩
      obtain rfl := Option.some.inj (hcut.symm.trans hcutover)
      exact absurd hle (not_le.2 hlt)
    · rw [hsource]
      exact iff_of_false (fun h => h.2 hpass) (by decide)
    · exact iff_of_true ⟨⟨cutover, hcut, hlt, hto⟩, hpass⟩ hsource

/-- A step that may raise has an answer just if it does not raise and the rest has one. -/
theorem exists_orRaise_bind_iff {α β : Type} {e : StitchError} {o : Option α}
    {f : α → Except StitchError β} {p : β → Prop} :
    (∃ b, (orRaise e o >>= f) = .ok b ∧ p b) ↔ ∃ a, o = some a ∧ ∃ b, f a = .ok b ∧ p b := by
  cases o with
  | none =>
      refine iff_of_false ?_ ?_
      · rintro ⟨b, h, -⟩
        cases h
      · rintro ⟨a, h, -⟩
        cases h
  | some a =>
      constructor
      · intro h
        exact ⟨a, rfl, h⟩
      · rintro ⟨a', ha, h⟩
        obtain rfl := Option.some.inj ha
        exact h

theorem exists_ok_iff {β : Type} {b : β} {p : β → Prop} :
    (∃ b', (Except.ok b : Except StitchError β) = .ok b' ∧ p b') ↔ p b := by
  constructor
  · rintro ⟨b', hb, h⟩
    obtain rfl := Except.ok.inj hb
    exact h
  · exact fun h => ⟨b, rfl, h⟩

/-- A range of candles can be made just if the validator has a report. -/
theorem exists_candleRange_iff {cs : List Candle} {p : List Candle → Prop} :
    (∃ range, candlesToCandleRange z cs start end_ = some range ∧ p range.candles) ↔
      (GapValidator.validate z cs start end_).isSome ∧ p cs := by
  constructor
  · rintro ⟨range, hrange, h⟩
    obtain ⟨report, hreport, rfl⟩ := Option.map_eq_some_iff.1 hrange
    exact ⟨by rw [hreport]; rfl, h⟩
  · rintro ⟨hreport, h⟩
    obtain ⟨report, hreport⟩ := Option.isSome_iff_exists.1 hreport
    exact ⟨_, by rw [candlesToCandleRange, hreport]; rfl, h⟩

section Answers

variable {p : List Candle → Prop} (hs : tz.fromtimestamp sinceTs = some start)
  (he : tz.fromtimestamp toTs = some end_)

include hs he

theorem answered_primary_iff
    (hsource : resolveSource sinceTs toTs (cutoverTs z files) compatStatus = .primary) :
    (∃ answer, getCandlesWithSource z tz files sinceTs toTs limit
        (some fun s e => some (fetchOhlcv s e)) compatStatus = .ok answer ∧
      p answer.range.candles) ↔
      ∃ range, CandleStore.readRange z files start end_ true = some range ∧ p range.candles := by
  rw [getCandlesWithSource, hs, he, exists_orRaise_bind_iff]
  simp only [Option.some.injEq, exists_eq_left', exists_orRaise_bind_iff, hsource, exists_ok_iff]

theorem answered_fallback_iff
    (hsource : resolveSource sinceTs toTs (cutoverTs z files) compatStatus = .fallback) :
    (∃ answer, getCandlesWithSource z tz files sinceTs toTs limit
        (some fun s e => some (fetchOhlcv s e)) compatStatus = .ok answer ∧
      p answer.range.candles) ↔
      (GapValidator.validate z (fetchOhlcv start end_) start end_).isSome ∧
        p (fetchOhlcv start end_) := by
  rw [getCandlesWithSource, hs, he, exists_orRaise_bind_iff]
  simp only [Option.some.injEq, exists_eq_left', exists_orRaise_bind_iff, hsource, exists_ok_iff,
    exists_candleRange_iff]

theorem answered_mixed_iff (hlimit : 1 ≤ limit)
    (hsource : resolveSource sinceTs toTs (cutoverTs z files) compatStatus = .mixed)
    (hcut : cutoverTs z files = some cutover) :
    (∃ answer, getCandlesWithSource z tz files sinceTs toTs limit
        (some fun s e => some (fetchOhlcv s e)) compatStatus = .ok answer ∧
      p answer.range.candles) ↔
      ∃ cutoverDt, tz.fromtimestamp cutover = some cutoverDt ∧
        ∃ range, CandleStore.readRange z files cutoverDt end_ true = some range ∧
          (GapValidator.validate z ((stitchCandles z range.candles (fetchOhlcv start cutoverDt)
            cutover).rtake limit) start end_).isSome ∧
          p ((stitchCandles z range.candles (fetchOhlcv start cutoverDt) cutover).rtake limit) := by
  have hrtake : ∀ cs : List Candle,
      (if limit ≠ 0 ∧ limit < cs.length then cs.rtake limit else cs) = cs.rtake limit := by
    intro cs
    split
    · rfl
    · rename_i hnot
      have hle : cs.length ≤ limit := not_lt.1 fun hlt => hnot ⟨by omega, hlt⟩
      rw [List.rtake, Nat.sub_eq_zero_of_le hle, List.drop_zero]
  rw [hcut] at hsource
  rw [getCandlesWithSource, hs, he, exists_orRaise_bind_iff]
  simp only [Option.some.injEq, exists_eq_left', exists_orRaise_bind_iff, hcut, hsource,
    exists_ok_iff, hrtake, exists_candleRange_iff]

end Answers

/-! ### The candles that there are -/

theorem available_primary (tz : CanonicalTz z) (toTs : ℤ)
    (fetchOhlcv : AwareDatetime → AwareDatetime → List Candle) (compatStatus : CompatStatus)
    (hcut : cutoverTs z files = some cutover) (hle : cutover ≤ sinceTs) :
    available z tz files sinceTs toTs fetchOhlcv compatStatus =
      {t | sinceTs ≤ t ∧ t < toTs ∧ ∃ c ∈ CandleStore.storedCandles z files, c.epoch z = t} := by
  ext t
  refine and_congr_right fun hge => and_congr_right fun _ => ?_
  rw [hcut]
  constructor
  · rintro (⟨-, -, -, hc⟩ | ⟨hlt, -⟩)
    · exact hc
    · exact absurd (hlt cutover rfl) (not_lt.2 (hle.trans hge))
  · intro hc
    exact Or.inl ⟨cutover, rfl, hle.trans hge, hc⟩

section Answers

variable (hs : tz.fromtimestamp sinceTs = some start) (he : tz.fromtimestamp toTs = some end_)

include hs he

theorem fallbackAnswer_fallback
    (hsource : resolveSource sinceTs toTs (cutoverTs z files) compatStatus = .fallback) :
    fallbackAnswer z tz files sinceTs toTs fetchOhlcv compatStatus = fetchOhlcv start end_ := by
  rw [fallbackAnswer, hs, he, hsource]

theorem fallbackAnswer_mixed
    (hsource : resolveSource sinceTs toTs (cutoverTs z files) compatStatus = .mixed)
    {cutoverDt : AwareDatetime} (hcut : cutoverTs z files = some cutover)
    (hdt : tz.fromtimestamp cutover = some cutoverDt) :
    fallbackAnswer z tz files sinceTs toTs fetchOhlcv compatStatus = fetchOhlcv start cutoverDt := by
  have hbind : (cutoverTs z files).bind tz.fromtimestamp = some cutoverDt := by
    rw [hcut, Option.bind_some, hdt]
  rw [fallbackAnswer, hs, he, hsource]
  dsimp only
  rw [hbind]

theorem available_fallback
    (hsource : resolveSource sinceTs toTs (cutoverTs z files) compatStatus = .fallback)
    (hcut : ∀ cutover, cutoverTs z files = some cutover → toTs ≤ cutover) :
    available z tz files sinceTs toTs fetchOhlcv compatStatus =
      {t | sinceTs ≤ t ∧ t < toTs ∧ ∃ c ∈ fetchOhlcv start end_, c.epoch z = t} := by
  rw [available, fallbackAnswer_fallback hs he hsource]
  ext t
  refine and_congr_right fun _ => and_congr_right fun hlt => ?_
  constructor
  · rintro (⟨cutover, hcutover, hle, -⟩ | ⟨-, hc⟩)
    · exact absurd (hlt.trans_le (hcut cutover hcutover)) (not_lt.2 hle)
    · exact hc
  · intro hc
    exact Or.inr ⟨fun cutover hcutover => hlt.trans_le (hcut cutover hcutover), hc⟩

theorem available_mixed
    (hsource : resolveSource sinceTs toTs (cutoverTs z files) compatStatus = .mixed)
    {cutoverDt : AwareDatetime} (hcut : cutoverTs z files = some cutover)
    (hdt : tz.fromtimestamp cutover = some cutoverDt) :
    available z tz files sinceTs toTs fetchOhlcv compatStatus =
      acrossKeys z files sinceTs toTs cutover (fetchOhlcv start cutoverDt) := by
  rw [available, fallbackAnswer_mixed hs he hsource hcut hdt, acrossKeys, hcut]
  ext t
  refine and_congr_right fun _ => and_congr_right fun _ => or_congr ?_ (and_congr_left fun _ => ?_)
  · constructor
    · rintro ⟨cutover', hcutover, h⟩
      obtain rfl := Option.some.inj hcutover
      exact h
    · exact fun h => ⟨cutover, rfl, h⟩
  · constructor
    · exact fun h => h cutover rfl
    · intro h cutover' hcutover
      obtain rfl := Option.some.inj hcutover
      exact h

/-! ### The contract, way by way -/

/-- In the range of the store alone. -/
theorem keeps_primary (hz : z.MonthsKeep) (hwest : z.West) (hfiles : Content z files)
    (hlimit : 1 ≤ limit)
    (hsource : resolveSource sinceTs toTs (cutoverTs z files) compatStatus = .primary)
    (hcut : cutoverTs z files = some cutover) (hle : cutover ≤ sinceTs) :
    (∃ answer, getCandlesWithSource z tz files sinceTs toTs limit
        (some fun s e => some (fetchOhlcv s e)) compatStatus = .ok answer ∧
      GoodAnswer z tz files sinceTs toTs limit fetchOhlcv compatStatus answer.range.candles) ↔
      KeepsRange z tz files sinceTs toTs limit fetchOhlcv compatStatus start end_ := by
  rw [answered_primary_iff hs he hsource, KeepsRange, hsource]
  dsimp only
  rcases lt_or_ge (monthStart 119999) end_.wall with hend | hend
  · -- the loop over the months leaves the calendar
    rw [readRange_eq_none hs he hend]
    refine iff_of_false ?_ fun h => absurd h.1.1 (not_le.2 hend)
    rintro ⟨range, h, -⟩
    cases h
  obtain ⟨range, hrange, hsorted, hmem⟩ := readRange_spec hz hwest hfiles hs he hend
  have hgood : GoodAnswer z tz files sinceTs toTs limit fetchOhlcv compatStatus range.candles ↔
      Latest (Candle.epoch z) limit
        {t | sinceTs ≤ t ∧ t < toTs ∧ ∃ c ∈ CandleStore.storedCandles z files, c.epoch z = t}
        range.candles := by
    rw [← available_primary tz toTs fetchOhlcv compatStatus hcut hle]
    refine ⟨fun h => h.latest, fun h => ⟨h, fun c hc _ _ _ => ?_, fun c hc hbefore => ?_⟩⟩
    · obtain ⟨-, -, month, hfile, -⟩ := (hmem c).1 hc
      exact mem_storedCandles.2 ⟨month, hfile⟩
    · have hlt := hbefore cutover hcut
      have hge := ((hmem c).1 hc).1
      omega
  rw [hrange, ← readRange_latest_iff hfiles hlimit hsorted hmem hend, ← hgood]
  constructor
  · rintro ⟨range', hrange', h⟩
    obtain rfl := Option.some.inj hrange'
    exact h
  · exact fun h => ⟨range, rfl, h⟩

/-- In the range of the fallback alone. -/
theorem keeps_fallback
    (hsource : resolveSource sinceTs toTs (cutoverTs z files) compatStatus = .fallback)
    (hcut : ∀ cutover, cutoverTs z files = some cutover → toTs ≤ cutover) :
    (∃ answer, getCandlesWithSource z tz files sinceTs toTs limit
        (some fun s e => some (fetchOhlcv s e)) compatStatus = .ok answer ∧
      GoodAnswer z tz files sinceTs toTs limit fetchOhlcv compatStatus answer.range.candles) ↔
      KeepsRange z tz files sinceTs toTs limit fetchOhlcv compatStatus start end_ := by
  rw [answered_fallback_iff hs he hsource, KeepsRange, hsource]
  dsimp only
  rw [← answer_latest_iff, and_comm, ← available_fallback hs he hsource hcut]
  refine and_congr_left fun _ => ⟨fun h => h.latest, fun h => ⟨h, ?_, fun c hc _ => ?_⟩⟩
  · intro c hc cutover hcutover hge
    have hlt := (h.mem_keys c hc).2.1
    have := hcut cutover hcutover
    omega
  · rwa [fallbackAnswer_fallback hs he hsource]

/-- Across the cut. -/
theorem keeps_mixed (hz : z.MonthsKeep) (hwest : z.West) (hfiles : Content z files)
    (hlimit : 1 ≤ limit)
    (hsource : resolveSource sinceTs toTs (cutoverTs z files) compatStatus = .mixed)
    (hcut : cutoverTs z files = some cutover) (hlt : sinceTs < cutover) (hto : cutover < toTs) :
    (∃ answer, getCandlesWithSource z tz files sinceTs toTs limit
        (some fun s e => some (fetchOhlcv s e)) compatStatus = .ok answer ∧
      GoodAnswer z tz files sinceTs toTs limit fetchOhlcv compatStatus answer.range.candles) ↔
      KeepsRange z tz files sinceTs toTs limit fetchOhlcv compatStatus start end_ := by
  rw [answered_mixed_iff hs he hlimit hsource hcut, KeepsRange, hsource]
  dsimp only
  obtain ⟨cutoverDt, hdt⟩ := tz.between hlt.le hto.le hs he
  have hgood : ∀ {primary : List Candle},
      (∀ c ∈ primary, c ∈ CandleStore.storedCandles z files) →
      (GoodAnswer z tz files sinceTs toTs limit fetchOhlcv compatStatus
          ((stitchCandles z primary (fetchOhlcv start cutoverDt) cutover).rtake limit) ↔
        Latest (Candle.epoch z) limit
          (acrossKeys z files sinceTs toTs cutover (fetchOhlcv start cutoverDt))
          ((stitchCandles z primary (fetchOhlcv start cutoverDt) cutover).rtake limit)) := by
    intro primary hprimary
    rw [← available_mixed hs he hsource hcut hdt]
    refine ⟨fun h => h.latest, fun h => ⟨h, ?_, ?_⟩⟩
    · intro c hc cutover' hcut' hge
      obtain rfl := Option.some.inj (hcut.symm.trans hcut')
      rcases (of_get?_stitched (mem_stitchCandles.1 (List.mem_of_mem_drop hc))).2 with
        ⟨hc, -⟩ | ⟨-, hlt⟩
      · exact hprimary c hc
      · exact absurd hge (not_le.2 hlt)
    · intro c hc hbefore
      rw [fallbackAnswer_mixed hs he hsource hcut hdt]
      rcases (of_get?_stitched (mem_stitchCandles.1 (List.mem_of_mem_drop hc))).2 with
        ⟨-, hge⟩ | ⟨hc, -⟩
      · exact absurd (hbefore cutover hcut) (not_lt.2 hge)
      · exact hc
  have hdt' : ∀ {d}, tz.fromtimestamp cutover = some d → d = cutoverDt := fun hd =>
    Option.some.inj (hd.symm.trans hdt)
  constructor
  · rintro ⟨d, hd, range, hrange, hreport, h⟩
    obtain rfl := hdt' hd
    have hend : end_.wall ≤ monthStart 119999 := by
      by_contra hend
      rw [readRange_eq_none hdt he (not_le.1 hend)] at hrange
      cases hrange
    obtain ⟨range', hrange', hsorted, hmem⟩ := readRange_spec hz hwest hfiles hdt he hend
    obtain rfl := Option.some.inj (hrange'.symm.trans hrange)
    have hstored : ∀ c ∈ range'.candles, c ∈ CandleStore.storedCandles z files := fun c hc =>
      mem_storedCandles.2 (((hmem c).1 hc).2.2.imp fun _ h => h.1)
    rw [hgood hstored] at h
    have hkeeps := (stitched_latest_iff hfiles hlimit hlt hto hsorted hmem hend).1 h
    refine ⟨cutover, d, hcut, hdt, hkeeps, isSome_of_validate ?_ hreport⟩
    -- the candle at the cut is there
    obtain ⟨first, hfirst, hepoch⟩ := (cutover_spec hfiles hcut).1
    rcases h.latest cutover ⟨hlt.le, hto, Or.inl ⟨le_rfl, first, hfirst, hepoch⟩⟩ with
      hin | ⟨hfull, -⟩
    · obtain ⟨x, hx, -⟩ := List.mem_map.1 hin
      exact List.ne_nil_of_mem hx
    · refine List.length_pos_iff.1 ?_
      rw [hfull]
      exact hlimit
  · rintro ⟨cutover', d, hcut', hd, hkeeps, hreport⟩
    obtain rfl := Option.some.inj (hcut.symm.trans hcut')
    obtain rfl := hdt' hd
    have hend : end_.wall ≤ monthStart 119999 := hkeeps.1.1
    obtain ⟨range, hrange, hsorted, hmem⟩ := readRange_spec hz hwest hfiles hdt he hend
    have hstored : ∀ c ∈ range.candles, c ∈ CandleStore.storedCandles z files := fun c hc =>
      mem_storedCandles.2 (((hmem c).1 hc).2.2.imp fun _ h => h.1)
    refine ⟨d, hdt, range, hrange, validate_isSome (fun c hc => ?_) hreport, ?_⟩
    · refine nextMinute_isSome hwest he hend ?_
      rcases (of_get?_stitched (mem_stitchCandles.1 (List.mem_of_mem_drop hc))).2 with
        ⟨hc, -⟩ | ⟨-, hbefore⟩
      · exact ((hmem c).1 hc).2.1
      · exact hbefore.trans hto
    · rw [hgood hstored]
      exact (stitched_latest_iff hfiles hlimit hlt hto hsorted hmem hend).2 hkeeps

end Answers

/-- A request whose bounds are not datetimes has the wrong error, or should be answered. -/
theorem not_contract_of_raises
    (h : getCandlesWithSource z tz files sinceTs toTs limit (some fun s e => some (fetchOhlcv s e))
      compatStatus = .error .dateOutOfRange) :
    ¬ StitchContract z tz files sinceTs toTs limit fetchOhlcv compatStatus := by
  intro hcontract
  by_cases hdenied : Denied z files sinceTs toTs compatStatus
  · have hmixed := hcontract.denied.2 hdenied
    rw [h] at hmixed
    cases hmixed
  · obtain ⟨answer, hanswer, -⟩ := hcontract.answered hdenied
    rw [h] at hanswer
    cases hanswer

/-- A range that need not be denied should be answered. -/
theorem contract_iff_answered (h : ¬ Denied z files sinceTs toTs compatStatus) :
    StitchContract z tz files sinceTs toTs limit fetchOhlcv compatStatus ↔
      ∃ answer, getCandlesWithSource z tz files sinceTs toTs limit
          (some fun s e => some (fetchOhlcv s e)) compatStatus = .ok answer ∧
        GoodAnswer z tz files sinceTs toTs limit fetchOhlcv compatStatus answer.range.candles := by
  constructor
  · exact fun hcontract => hcontract.answered h
  · rintro ⟨answer, hanswer, hgood⟩
    refine ⟨iff_of_false ?_ h, fun _ => ⟨answer, hanswer, hgood⟩⟩
    rw [hanswer]
    rintro ⟨⟩

/-- The contract is kept just if the range has the form that its source needs. -/
theorem contract_iff (hz : z.MonthsKeep) (hwest : z.West) (hfiles : Content z files)
    (hlimit : 1 ≤ limit) :
    StitchContract z tz files sinceTs toTs limit fetchOhlcv compatStatus ↔
      KeepsContract z tz files sinceTs toTs limit fetchOhlcv compatStatus := by
  cases hs : tz.fromtimestamp sinceTs with
  | none =>
      refine iff_of_false (not_contract_of_raises ?_) ?_
      · rw [getCandlesWithSource, hs]
        rfl
      · rintro ⟨start, end_, hs', -⟩
        cases hs.symm.trans hs'
  | some start =>
      cases he : tz.fromtimestamp toTs with
      | none =>
          refine iff_of_false (not_contract_of_raises ?_) ?_
          · rw [getCandlesWithSource, hs, he]
            rfl
          · rintro ⟨start, end_, -, he', -⟩
            cases he.symm.trans he'
      | some end_ =>
          have hkeeps : KeepsContract z tz files sinceTs toTs limit fetchOhlcv compatStatus ↔
              KeepsRange z tz files sinceTs toTs limit fetchOhlcv compatStatus start end_ := by
            constructor
            · rintro ⟨start', end', hs', he', h⟩
              obtain rfl := Option.some.inj (hs.symm.trans hs')
              obtain rfl := Option.some.inj (he.symm.trans he')
              exact h
            · exact fun h => ⟨start, end_, hs, he, h⟩
          rw [hkeeps]
          rcases resolveSource_cases sinceTs toTs (cutoverTs z files) compatStatus with
            ⟨hsource, hcut⟩ | ⟨cutover, hcut, hto, h⟩
          · rw [contract_iff_answered (by rw [denied_iff, hsource]; decide)]
            exact keeps_fallback hs he hsource hcut
          · rcases h with ⟨hsource, hle⟩ | ⟨hsource, hlt, -⟩ | ⟨hsource, -, -⟩
            · rw [contract_iff_answered (by rw [denied_iff, hsource]; decide)]
              exact keeps_primary hs he hz hwest hfiles hlimit hsource hcut hle
            · rw [contract_iff_answered (by rw [denied_iff, hsource]; decide)]
              exact keeps_mixed hs he hz hwest hfiles hlimit hsource hcut hlt hto
            · -- the range is denied, as it should be
              have hdenied := denied_iff.2 hsource
              refine iff_of_true ⟨iff_of_true ?_ hdenied, fun h => absurd hdenied h⟩ ?_
              · rw [getCandlesWithSource, hs, he]
                dsimp only [orRaise]
                rw [hsource]
                rfl
              · rw [KeepsRange, hsource]
                trivial

/-! ### An answer that is too long -/

/-- The time in New York in winter. -/
def winterFromtimestamp (ts : ℤ) : Option AwareDatetime :=
  if h : monthStart 12 ≤ 1000000 * ts - 18000000000 ∧
      1000000 * ts - 18000000000 < monthStart 120000 then
    some ⟨.newYork, 1000000 * ts - 18000000000, false, h.1, h.2⟩
  else none

theorem winterFromtimestamp_eq_some {ts : ℤ} {d : AwareDatetime}
    (h : winterFromtimestamp ts = some d) :
    d.zone = .newYork ∧ d.wall = 1000000 * ts - 18000000000 ∧ d.fold = false := by
  rw [winterFromtimestamp] at h
  split at h
  · obtain rfl := Option.some.inj h
    exact ⟨rfl, rfl, rfl⟩
  · cases h

theorem winterFromtimestamp_zone {ts : ℤ} {d : AwareDatetime}
    (h : winterFromtimestamp ts = some d) : d.zone = .newYork :=
  (winterFromtimestamp_eq_some h).1

theorem winterFromtimestamp_instant {ts : ℤ} {d : AwareDatetime}
    (h : winterFromtimestamp ts = some d) : CandleStore.winter.instant d = 1000000 * ts := by
  obtain ⟨hzone, hwall, -⟩ := winterFromtimestamp_eq_some h
  rw [Zones.instant, Zones.utcoffset, hzone, hwall]
  simp only [CandleStore.winter]
  ring

theorem winterFromtimestamp_between {a b c : ℤ} {d e : AwareDatetime} (hab : a ≤ b) (hbc : b ≤ c)
    (ha : winterFromtimestamp a = some d) (hc : winterFromtimestamp c = some e) :
    ∃ x, winterFromtimestamp b = some x := by
  have hmin := d.minyear
  have hmax := e.maxyear
  rw [(winterFromtimestamp_eq_some ha).2.1] at hmin
  rw [(winterFromtimestamp_eq_some hc).2.1] at hmax
  exact ⟨_, dif_pos ⟨by omega, by omega⟩⟩

/-- The conversion of epochs in winter. -/
def winterTz : CanonicalTz CandleStore.winter where
  fromtimestamp := winterFromtimestamp
  zone_eq := winterFromtimestamp_zone
  instant_eq := winterFromtimestamp_instant
  between := winterFromtimestamp_between

theorem winter_west : CandleStore.winter.West := by
  intro wall fold
  have hoffset : CandleStore.winter.newYork wall fold = -18000 := rfl
  rw [hoffset]
  decide


/-- A store with candles at noon and a minute later. -/
def noonFiles : Files :=
  (CandleStore.patch CandleStore.winter Dict.empty
    [CandleStore.flat CandleStore.utcNoon 1, CandleStore.flat CandleStore.newYorkAfterNoon 2]).1

theorem inv_noonFiles : CandleStore.Inv CandleStore.winter (fun _ => True) noonFiles :=
  (CandleStore.patch_refines CandleStore.inv_empty trivial CandleStore.faithful_two_zones).1

theorem noonFiles_primary :
    resolveSource 1705320000 1705320120 (cutoverTs CandleStore.winter noonFiles) .unknown =
      .primary := by
  decide +kernel

/-- Noon and two minutes later, by the clock of New York. -/
def noonStart : AwareDatetime :=
  ⟨.newYork, 1705302000000000, false, by decide +kernel, by decide +kernel⟩

def noonEnd : AwareDatetime :=
  ⟨.newYork, 1705302120000000, false, by decide +kernel, by decide +kernel⟩

theorem fromtimestamp_noonStart : winterTz.fromtimestamp 1705320000 = some noonStart := by
  decide +kernel

theorem fromtimestamp_noonEnd : winterTz.fromtimestamp 1705320120 = some noonEnd := by
  decide +kernel

/-- Two candles are asked for from noon on, and there are two. -/
theorem contract_noon : StitchContract CandleStore.winter winterTz noonFiles 1705320000 1705320120 2
    (fun _ _ => []) .unknown := by
  refine (contract_iff CandleStore.winter_monthsKeep winter_west (content_of_inv inv_noonFiles trivial)
    (by decide)).2 ⟨_, _, fromtimestamp_noonStart, fromtimestamp_noonEnd, ?_⟩
  rw [KeepsRange, noonFiles_primary]
  refine ⟨⟨by decide +kernel, fun month c hc _ _ => ?_⟩, by decide +kernel⟩
  have hall : ∀ c ∈ CandleStore.storedCandles CandleStore.winter noonFiles,
      monthStart c.timestamp.month < noonEnd.wall := by
    decide +kernel
  rw [← inv_noonFiles.month_eq trivial hc]
  exact hall c (mem_storedCandles.2 ⟨month, hc⟩)

/-- One candle is asked for, and there are two in the answer. -/
theorem limit_ignored :
    CandleStore.winter.MonthsKeep ∧ CandleStore.winter.West ∧ Content CandleStore.winter noonFiles ∧
      ¬ StitchContract CandleStore.winter winterTz noonFiles 1705320000 1705320120 1 (fun _ _ => [])
        .unknown := by
  refine ⟨CandleStore.winter_monthsKeep, winter_west, content_of_inv inv_noonFiles trivial, fun h => ?_⟩
  have hdenied : ¬ Denied CandleStore.winter noonFiles 1705320000 1705320120 .unknown := by
    rw [denied_iff, noonFiles_primary]
    decide
  obtain ⟨answer, hanswer, hgood⟩ := h.answered hdenied
  obtain ⟨range, hrange, hle⟩ := (answered_primary_iff (p := fun cs => cs.length ≤ 1)
    fromtimestamp_noonStart fromtimestamp_noonEnd noonFiles_primary).1
      ⟨answer, hanswer, hgood.latest.length_le⟩
  have hlength : (CandleStore.readRange CandleStore.winter noonFiles noonStart noonEnd true).map
      (fun range => range.candles.length) = some 2 := by
    decide +kernel
  rw [hrange] at hlength
  have htwo : range.candles.length = 2 := Option.some.inj hlength
  omega

end CandleStitching
