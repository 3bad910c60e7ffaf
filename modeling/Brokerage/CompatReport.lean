/-
**The verdict on the compatibility of two feeds.**

The report joins two series of candles by the minute, compares their returns on the minutes that
they share, and answers whether one may stand for the other.  A gate asks for half of each series to
overlap with the other one.  The percentages that it reads are those of the spans of the series, from
the first candle to the last one, so the minutes that are missing inside the spans do not count
against them.

Logarithms and square roots are those of machine floats and are parameters; all other numbers are
fractions.

Main definitions:

* `CompatReport.buildCompatReport` — the report;
* `CompatReport.computeCompatVerdict` — the verdict on a report;
* `UniqueMinutes`, `bothMinutes`, `missingIn` — series of minutes, and what two of them share.

Main results:

* `CompatReport.window_le` — a minute of the window is shared, or one of the series misses it;
* `CompatReport.pass_spec` — what a pass says of the two series, and which of them cannot pass;
* `CompatReport.sparse_compatible` — two series that share less than half of their minutes.
-/

import Brokerage.GapValidator
import Brokerage.MarketHours
import Brokerage.SimpleBacktests
import Brokerage.StableSort

set_option relaxedAutoImplicit false
set_option autoImplicit false

/-- The functions of floats that leave the fractions. -/
structure FloatFns where
  log : ℚ → ℚ
  sqrt : ℚ → ℚ

namespace CompatReport

/-! ### Statistics -/

section Statistics

variable (fl : FloatFns)

/-- `np.mean`. -/
def mean (xs : List ℚ) : ℚ := xs.sum / xs.length

/-- `np.std`. -/
def std (xs : List ℚ) : ℚ := fl.sqrt (mean (xs.map fun x => (x - mean xs) ^ 2))

/-- The covariance as `np.corrcoef` takes it. -/
def covariance (xs ys : List ℚ) : ℚ :=
  (List.zipWith (fun x y => (x - mean xs) * (y - mean ys)) xs ys).sum / (xs.length - 1)

/-- `np.corrcoef(xs, ys)[0, 1]`. -/
def corrcoef (xs ys : List ℚ) : ℚ :=
  max (-1) (min 1
    (covariance xs ys / fl.sqrt (covariance xs xs) / fl.sqrt (covariance ys ys)))

/-- `np.percentile`, between the two nearest elements. -/
def percentile (xs : List ℚ) (p : ℕ) : ℚ :=
  let ys := xs.insertionSort (· ≤ ·)
  let k := p * (ys.length - 1)
  let lo := ys.getD (k / 100) 0
  lo + ((k % 100 : ℕ) : ℚ) / 100 * (ys.getD (k / 100 + 1) lo - lo)

/-- `np.sign`. -/
def sign (x : ℚ) : ℤ := if 0 < x then 1 else if x < 0 then -1 else 0

/-- The percentage of some signs that differ from the one before. -/
def flipRate (xs : List ℚ) : ℚ :=
  if 1 < xs.length then
    ((xs.zip xs.tail).countP fun p => sign p.1 ≠ sign p.2 : ℚ) / max 1 (xs.length - 1) * 100
  else 0

/-- A number with some digits after the point. -/
def fixed (digits : ℕ) (x : ℚ) : String :=
  let n := (QualityGate.roundHalfEven (10 ^ digits * |x|)).toNat
  (if x < 0 then "-" else "") ++ toString (n / 10 ^ digits) ++
    if digits = 0 then "" else "." ++ String.ofList (Text.padded digits (n % 10 ^ digits))

end Statistics

/-! ### The data of a report -/

structure Integrity where
  missingMinutes : ℤ
  duplicates : ℕ
  tsStepErr : ℕ
  coverageFrom : ℤ
  coverageTo : ℤ
  actualCount : ℤ
  expectedCount : ℤ

structure Overlap where
  overlapFrom : ℤ
  overlapTo : ℤ
  overlapMinutes : ℤ
  pctOverlapOverA : ℚ
  pctOverlapOverB : ℚ

structure DiffStats where
  mean : ℚ
  std : ℚ
  p50 : ℚ
  p95 : ℚ
  p99 : ℚ
  maxAbs : ℚ

structure OhlcDiffs where
  open_ : DiffStats
  high : DiffStats
  low : DiffStats
  close : DiffStats

structure ReturnMetrics where
  corr : ℚ
  rmse : ℚ
  meanDiff : ℚ
  stdDiff : ℚ
  dirAgreePct : ℚ
  flipRateA : ℚ
  flipRateB : ℚ
  flipRateDiff : ℚ

structure DirAgreeFiltered where
  dirAgreeFilteredPct : ℚ
  eligibleCount : ℕ
  totalCount : ℕ

/-- The returns of the minutes in which the market is open; the filtered agreement is left out where
there are fewer than two pairs. -/
structure MarketOpenMetrics extends ReturnMetrics where
  dirAgreeFilteredPct : Option ℚ
  eligibleCount : Option ℕ
  closedMinutesExcludedCount : ℕ
  closedMinutesExcludedPct : ℚ
  nOpenPairs : ℕ

structure CandleQuality where
  zeroRangeRatio : ℚ
  flatCloseRatio : ℚ
  uniqueCloseRatio : ℚ

structure LagScan where
  bestLagMinutes : ℤ
  corrAtLag0 : ℚ
  corrAtBestLag : ℚ

inductive Verdict
  | compatible
  | passBacktest
  | partial_
  | incompatible
  | dataQualityFail
  deriving DecidableEq

/-- A report; the parts that are empty or not there are missing. -/
structure Report where
  symbol : String
  windowMinutes : ℤ
  alignedCount : ℕ
  overlap : Option Overlap
  integrityA : Option Integrity
  integrityB : Option Integrity
  candleQuality : Option (CandleQuality × CandleQuality)
  lagScan : Option LagScan
  ohlcDiffs : Option OhlcDiffs
  returns : Option ReturnMetrics
  returnsMarketOpen : Option MarketOpenMetrics
  dirAgreeFiltered : Option DirAgreeFiltered
  verdict : Option (Verdict × String)

/-! ### The verdict -/

def zeroRangeFailThreshold : ℚ := 20 / 100
def corrPartialMin : ℚ := 70 / 100
def corrCompatibleMin : ℚ := 95 / 100
def dirAgreePartialMin : ℚ := 70
def dirAgreeCompatibleMin : ℚ := 95
def pctOverlapMin : ℚ := 50
def offsetP95EurusdMax : ℚ := 2 / 1000
def offsetP95XauusdMax : ℚ := 15
def dirAgreeFilteredEpsDefault : ℚ := 5 / 100000
def dirAgreeFilteredEpsXau : ℚ := 1 / 10000
def dirAgreeFilteredMinEligible : ℕ := 100
def dirAgreeFilteredCompatibleMin : ℚ := 95
def corrPassBacktestMin : ℚ := 90 / 100
def marketOpenMinPairs : ℕ := 50

namespace Report

variable (report : Report)

def zrA : ℚ := (report.candleQuality.map fun q => q.1.zeroRangeRatio).getD 0

def pctA : ℚ := (report.overlap.map Overlap.pctOverlapOverA).getD 0

def pctB : ℚ := (report.overlap.map Overlap.pctOverlapOverB).getD 0

def nOpen : ℕ := (report.returnsMarketOpen.map MarketOpenMetrics.nOpenPairs).getD 0

/-- A metric of the minutes in which the market is open, if there are enough of them. -/
def openMetric {β : Type} [Zero β] (metric : MarketOpenMetrics → β) : β :=
  if marketOpenMinPairs ≤ report.nOpen then (report.returnsMarketOpen.map metric).getD 0 else 0

def corr : ℚ := (report.returns.map ReturnMetrics.corr).getD 0

/-- `corr_best`: that of the best lag, unless it is zero, or of the open minutes if it is better. -/
def corrBest : ℚ :=
  let atLag := (report.lagScan.map LagScan.corrAtBestLag).getD report.corr
  let corrBest := if atLag = 0 then report.corr else atLag
  if marketOpenMinPairs ≤ report.nOpen then
    max corrBest (report.openMetric fun rmo => rmo.corr)
  else corrBest

/-- `dir_agree`: of all minutes, or of the open ones if it is better. -/
def dirAgree : ℚ :=
  let dirAgree := (report.returns.map ReturnMetrics.dirAgreePct).getD 0
  if marketOpenMinPairs ≤ report.nOpen then
    max dirAgree (report.openMetric fun rmo => rmo.dirAgreePct)
  else dirAgree

/-- `daf_pct` and `eligible`: those of the open minutes if they are better. -/
def filtered : ℚ × ℕ :=
  let dafPct := (report.dirAgreeFiltered.map DirAgreeFiltered.dirAgreeFilteredPct).getD 0
  let eligible := (report.dirAgreeFiltered.map DirAgreeFiltered.eligibleCount).getD 0
  let rmoDaf := report.openMetric fun rmo => rmo.dirAgreeFilteredPct.getD 0
  let rmoEligible := report.openMetric fun rmo => rmo.eligibleCount.getD 0
  if dafPct < rmoDaf ∧ dirAgreeFilteredMinEligible ≤ rmoEligible then (rmoDaf, rmoEligible)
  else (dafPct, eligible)

/-- `p95_abs`. -/
def p95Abs : ℚ := (report.ohlcDiffs.map fun d => d.close.p95).getD 0

/-- The text of the two measures that decide. -/
def measures : String :=
  "corr=" ++ fixed 3 report.corrBest ++ " dir_agree=" ++ fixed 1 report.dirAgree ++ "%"

/-- The text for the robust gate. -/
def filteredMeasures : String :=
  let excluded := report.openMetric fun rmo => rmo.closedMinutesExcludedCount
  "corr=" ++ fixed 3 report.corrBest ++ " dir_agree_filtered=" ++ fixed 1 report.filtered.1 ++
    "% (eligible=" ++ toString report.filtered.2 ++ ", dir_agree_1m=" ++ fixed 1 report.dirAgree ++
    "%)" ++ if excluded = 0 then "" else " market_open_filter=on excluded=" ++ toString excluded

end Report

def computeCompatVerdict (report : Report) : Verdict × String :=
  if zeroRangeFailThreshold < report.zrA then
    (.dataQualityFail, "zero_range_ratio(A)=" ++ fixed 1 (100 * report.zrA) ++ "% > 20%")
  else if report.pctA < pctOverlapMin ∨ report.pctB < pctOverlapMin then
    (.incompatible, "overlap insuficient (a=" ++ fixed 0 report.pctA ++ "% b=" ++
      fixed 0 report.pctB ++ "%)")
  else if Text.upper report.symbol = "EURUSD" ∧ offsetP95EurusdMax < report.p95Abs then
    (.partial_, "offset p95=" ++ fixed 4 report.p95Abs ++ " > 0.002")
  else if Text.upper report.symbol = "XAUUSD" ∧ offsetP95XauusdMax < report.p95Abs then
    (.partial_, "offset p95=$" ++ fixed 1 report.p95Abs ++ " > $15.0")
  else if corrCompatibleMin ≤ report.corrBest ∧ dirAgreeCompatibleMin ≤ report.dirAgree then
    (.compatible, report.measures)
  else if corrPassBacktestMin ≤ report.corrBest ∧
      dirAgreeFilteredMinEligible ≤ report.filtered.2 ∧
      dirAgreeFilteredCompatibleMin ≤ report.filtered.1 then
    (.passBacktest, report.filteredMeasures)
  else if corrPartialMin ≤ report.corrBest ∧ dirAgreePartialMin ≤ report.dirAgree then
    (.partial_, report.measures)
  else (.incompatible, report.measures)

/-! ### The report -/

section Build

variable (fl : FloatFns) (tz : ZoneInfo)

/-- `_ts`. -/
def ts (c : Candle) : ℤ := c.epoch tz.toZones

def validateIntegrity (cs : List Candle) (start end_ : AwareDatetime) : Option Integrity :=
  (GapValidator.validate tz.toZones cs start end_).map fun report => {
    missingMinutes := report.missingCount
    duplicates := if report.hasDuplicates then 1 else 0
    tsStepErr := (GapValidator.steps cs).countP fun p => ts tz p.2 - ts tz p.1 ≠ 60
    coverageFrom := (tz.toZones.instant start).tdiv 1000000
    coverageTo := (tz.toZones.instant end_).tdiv 1000000
    actualCount := report.actualCount
    expectedCount := report.expectedCount }

/-- The pairs of candles of one minute, in the order of the first series; the second one is moved by a
lag. -/
def innerJoin (candlesA candlesB : List Candle) (lagMinutes : ℤ) : List (Candle × Candle) :=
  StableSort.sortBy (fun p => ts tz p.1) (candlesA.filterMap fun ca =>
    ((Dict.keyed (ts tz) candlesB).get? (ts tz ca + lagMinutes * 60)).map fun cb => (ca, cb))

def diffStats (aligned : List (Candle × Candle)) (field : Ohlcv → ℚ) : DiffStats :=
  let diffs := aligned.map fun p => field p.1.ohlcv - field p.2.ohlcv
  let absDiffs := diffs.map fun d => |d|
  { mean := mean diffs
    std := if 1 < diffs.length then std fl diffs else 0
    p50 := percentile absDiffs 50
    p95 := percentile absDiffs 95
    p99 := percentile absDiffs 99
    maxAbs := absDiffs.foldl max 0 }

def ohlcDiffs (aligned : List (Candle × Candle)) : OhlcDiffs where
  open_ := diffStats fl aligned Ohlcv.open_
  high := diffStats fl aligned Ohlcv.high
  low := diffStats fl aligned Ohlcv.low
  close := diffStats fl aligned Ohlcv.close

/-- Whether the market is open at a second; where its engine fails, it is. -/
def isMarketOpenTs (tsEpoch : ℤ) (symbol : String) : Bool :=
  match MarketHours.getMarketStateNy tz symbol (.inl tsEpoch) none with
  | some result => result.state = .open_
  | none => true

/-- The logarithm of a number that is not positive raises. -/
def logReturn (closePrev closeCurr : ℚ) : Option ℚ :=
  if closePrev ≤ 0 then some 0
  else if 0 < closeCurr / closePrev then some (fl.log (closeCurr / closePrev))
  else none

/-- The returns of the two series from each pair to the next one. -/
def returnPairs (aligned : List (Candle × Candle)) : Option (List (ℚ × ℚ)) :=
  (aligned.zip aligned.tail).mapM fun p =>
    match logReturn fl p.1.1.ohlcv.close p.2.1.ohlcv.close,
        logReturn fl p.1.2.ohlcv.close p.2.2.ohlcv.close with
    | some ra, some rb => some (ra, rb)
    | _, _ => none

/-- The two series move up together, or both do not. -/
def Agree (r : ℚ × ℚ) : Prop := 0 < r.1 ↔ 0 < r.2

instance (r : ℚ × ℚ) : Decidable (Agree r) := inferInstanceAs (Decidable (_ ↔ _))

/-- The metrics of some returns. -/
def metricsOf (returns : List (ℚ × ℚ)) : ReturnMetrics :=
  let retA := returns.map Prod.fst
  let retB := returns.map Prod.snd
  let diff := returns.map fun r => r.1 - r.2
  { corr := if 0 < std fl retA ∧ 0 < std fl retB then corrcoef fl retA retB else 0
    rmse := fl.sqrt (mean (diff.map fun d => d ^ 2))
    meanDiff := mean diff
    stdDiff := if 1 < diff.length then std fl diff else 0
    dirAgreePct := (returns.countP fun r => Agree r : ℚ) / returns.length * 100
    flipRateA := flipRate retA
    flipRateB := flipRate retB
    flipRateDiff := |flipRate retA - flipRate retB| }

def returnMetrics (aligned : List (Candle × Candle)) : Option ReturnMetrics :=
  if aligned.length < 2 then some ⟨0, 0, 0, 0, 0, 0, 0, 0⟩
  else (returnPairs fl aligned).map (metricsOf fl)

/-- The agreement on the returns that are not almost zero. -/
def filteredOf (eps : ℚ) (returns : List (ℚ × ℚ)) : DirAgreeFiltered :=
  let eligible := returns.filter fun r => eps ≤ |r.1| ∨ eps ≤ |r.2|
  if eligible.length = 0 then ⟨0, 0, returns.length⟩
  else
    let pct : ℚ := (eligible.countP fun r => Agree r : ℚ) / eligible.length * 100
    ⟨Rounding.round pct 4, eligible.length, returns.length⟩

def dirAgreeFiltered (aligned : List (Candle × Candle)) (symbol : String) :
    Option DirAgreeFiltered :=
  if aligned.length < 2 then some ⟨0, 0, 0⟩
  else
    let eps := if "XAU".toList <:+: (Text.upper symbol).toList then dirAgreeFilteredEpsXau
      else dirAgreeFilteredEpsDefault
    (returnPairs fl aligned).map (filteredOf eps)

/-- The returns without the minutes in which the market is closed, or the first series does not
move. -/
def returnsMarketOpenFiltered (aligned : List (Candle × Candle)) (symbol : String) :
    Option MarketOpenMetrics :=
  if aligned.length < 2 then some {
    corr := 0, rmse := 0, meanDiff := 0, stdDiff := 0, dirAgreePct := 0, flipRateA := 0,
    flipRateB := 0, flipRateDiff := 0, dirAgreeFilteredPct := none, eligibleCount := none,
    closedMinutesExcludedCount := 0, closedMinutesExcludedPct := 0, nOpenPairs := 0 }
  else
    let openPairs := aligned.filter fun p =>
      isMarketOpenTs tz (ts tz p.1) symbol ∧ p.1.ohlcv.high ≠ p.1.ohlcv.low
    let excluded := aligned.length - openPairs.length
    match returnMetrics fl openPairs, dirAgreeFiltered fl openPairs symbol with
    | some base, some daf => some { base with
        dirAgreeFilteredPct := some daf.dirAgreeFilteredPct
        eligibleCount := some daf.eligibleCount
        closedMinutesExcludedCount := excluded
        closedMinutesExcludedPct :=
          Rounding.round ((excluded : ℚ) / aligned.length * 100) 2
        nOpenPairs := openPairs.length }
    | _, _ => none

/-- The quality of the candles of one series. -/
def qualityOf (cs : List Candle) : CandleQuality where
  zeroRangeRatio := (cs.countP fun c => c.ohlcv.high = c.ohlcv.low : ℚ) / cs.length
  flatCloseRatio := (cs.countP fun c => c.ohlcv.open_ = c.ohlcv.close : ℚ) / cs.length
  uniqueCloseRatio := ((cs.map fun c => c.ohlcv.close).dedup.length : ℚ) / cs.length

def candleQuality (aligned : List (Candle × Candle)) : Option (CandleQuality × CandleQuality) :=
  if aligned.isEmpty then none
  else some (qualityOf (aligned.map Prod.fst), qualityOf (aligned.map Prod.snd))

/-- One lag of the scan. -/
def lagStep (candlesA candlesB : List Candle) (scan : LagScan) (lag : ℤ) : Option LagScan :=
  let aligned := innerJoin tz candlesA candlesB lag
  if aligned.length < 2 then some scan
  else (returnMetrics fl aligned).map fun rets =>
    { bestLagMinutes := if scan.corrAtBestLag < rets.corr then lag else scan.bestLagMinutes
      corrAtLag0 := if lag = 0 then rets.corr else scan.corrAtLag0
      corrAtBestLag := if scan.corrAtBestLag < rets.corr then rets.corr else scan.corrAtBestLag }

/-- The scan of the lags from -5 to 5. -/
def lagScan (candlesA candlesB : List Candle) : Option LagScan :=
  ([-5, -4, -3, -2, -1, 0, 1, 2, 3, 4, 5].foldlM (lagStep fl tz candlesA candlesB) ⟨0, 0, -2⟩).map
    fun scan =>
      { scan with corrAtBestLag := if -2 < scan.corrAtBestLag then scan.corrAtBestLag else 0 }

/-- The seconds of a series, sorted. -/
def sortedTs (cs : List Candle) : List ℤ := (cs.map (ts tz)).insertionSort (· ≤ ·)

/-- The second of the first candle. -/
def firstTs (cs : List Candle) : ℤ := (sortedTs tz cs).headD 0

/-- The second of the last candle. -/
def lastTs (cs : List Candle) : ℤ := (sortedTs tz cs).getLastD 0

/-- `expected_a`: the minutes from the first candle to the last one. -/
def expected (cs : List Candle) : ℤ := max 1 ((lastTs tz cs - firstTs tz cs) / 60 + 1)

def overlapOf (candlesA candlesB : List Candle) : Overlap :=
  let overlapFrom := max (firstTs tz candlesA) (firstTs tz candlesB)
  let overlapTo := min (lastTs tz candlesA + 60) (lastTs tz candlesB + 60)
  let overlapMinutes := max 0 ((overlapTo - overlapFrom) / 60)
  { overlapFrom := overlapFrom
    overlapTo := overlapTo
    overlapMinutes := overlapMinutes
    pctOverlapOverA := Rounding.round ((overlapMinutes : ℚ) / expected tz candlesA * 100) 2
    pctOverlapOverB := Rounding.round ((overlapMinutes : ℚ) / expected tz candlesB * 100) 2 }

/-- The pairs of candles of the minutes of the overlap. -/
def alignedIn (candlesA candlesB : List Candle) : List (Candle × Candle) :=
  let overlap := overlapOf tz candlesA candlesB
  (innerJoin tz candlesA candlesB 0).filter fun p =>
    overlap.overlapFrom ≤ ts tz p.1 ∧ ts tz p.1 < overlap.overlapTo

/-- A report, with the verdict on it. -/
def withVerdict (report : Report) : Report :=
  { report with verdict := some (computeCompatVerdict report) }

/-- The report on a series without candles; there is no verdict in it. -/
def emptyReport (symbol : String) : Report :=
  ⟨symbol, 0, 0, none, none, none, none, none, none, none, none, none, none⟩

/-- The report on two series; nothing if it raises. -/
def buildCompatReport (candlesA candlesB : List Candle) (symbol : String) : Option Report :=
  if candlesA.isEmpty || candlesB.isEmpty then some (emptyReport symbol)
  else do
    let overlap := overlapOf tz candlesA candlesB
    let startOverlap ← utcFromTimestamp (1000000 * overlap.overlapFrom)
    let endOverlap ← utcFromTimestamp (1000000 * overlap.overlapTo)
    let integrityA ← validateIntegrity tz candlesA startOverlap endOverlap
    let integrityB ← validateIntegrity tz candlesB startOverlap endOverlap
    let aligned := alignedIn tz candlesA candlesB
    let scan ← lagScan fl tz candlesA candlesB
    let rets ← returnMetrics fl aligned
    let rmo ← returnsMarketOpenFiltered fl tz aligned symbol
    let daf ← dirAgreeFiltered fl aligned symbol
    some (withVerdict {
      symbol := symbol
      windowMinutes := overlap.overlapMinutes
      alignedCount := aligned.length
      overlap := some overlap
      integrityA := some integrityA
      integrityB := some integrityB
      candleQuality := candleQuality aligned
      lagScan := some scan
      ohlcDiffs := some (ohlcDiffs fl aligned)
      returns := some rets
      -- without a pair neither of the two is part of the report
      returnsMarketOpen := if aligned.isEmpty then none else some rmo
      dirAgreeFiltered := if aligned.isEmpty then none else some daf
      verdict := none })

end Build

/-! ### The percentages -/

/-- The rounded percentage reaches the gate from 49.995 on. -/
theorem pctOverlapMin_le_iff (minutes : ℤ) {expected : ℤ} (h : 0 < expected) :
    pctOverlapMin ≤ Rounding.round ((minutes : ℚ) / expected * 100) 2 ↔
      9999 * expected ≤ 20000 * minutes := by
  have hpos : (0 : ℚ) < expected := by exact_mod_cast h
  calc pctOverlapMin ≤ Rounding.round ((minutes : ℚ) / expected * 100) 2
      ↔ ((5000 : ℤ) : ℚ) ≤ QualityGate.roundHalfEven (10 ^ 2 * ((minutes : ℚ) / expected * 100)) := by
        rw [pctOverlapMin, show Rounding.round ((minutes : ℚ) / expected * 100) 2 =
          QualityGate.roundHalfEven (10 ^ 2 * ((minutes : ℚ) / expected * 100)) / 10 ^ 2 from rfl,
          le_div_iff₀ (by norm_num)]
        norm_num
    _ ↔ ((5000 : ℤ) : ℚ) - 1 / 2 ≤ 10 ^ 2 * ((minutes : ℚ) / expected * 100) := by
        rw [Int.cast_le, QualityGate.le_roundHalfEven_iff (by decide)]
    _ ↔ (9999 : ℚ) * expected ≤ 20000 * minutes := by
        rw [show (10 : ℚ) ^ 2 * (minutes / expected * 100) = 10000 * minutes / expected by ring,
          le_div_iff₀ hpos]
        constructor <;> intro h <;> push_cast at h ⊢ <;> linarith
    _ ↔ 9999 * expected ≤ 20000 * minutes := by exact_mod_cast Iff.rfl

/-! ### First and last minutes -/

theorem headD_le {l : List ℤ} (hl : l.Pairwise (· ≤ ·)) {a : ℤ} (ha : a ∈ l) (d : ℤ) :
    l.headD d ≤ a := by
  cases l with
  | nil => exact absurd ha List.not_mem_nil
  | cons b l =>
      rcases List.mem_cons.1 ha with rfl | ha
      · exact le_rfl
      · exact List.rel_of_pairwise_cons hl ha

theorem le_getLastD {l : List ℤ} (hl : l.Pairwise (· ≤ ·)) {a : ℤ} (ha : a ∈ l) (d : ℤ) :
    a ≤ l.getLastD d := by
  cases l with
  | nil => exact absurd ha List.not_mem_nil
  | cons b l =>
      rw [List.getLastD_cons]
      exact GridWindow.le_getLast hl a ha

section Minutes

variable (tz : ZoneInfo)

/-- The seconds of a series. -/
def seconds (cs : List Candle) : Finset ℤ := (cs.map (ts tz)).toFinset

/-- Each candle starts at a minute, and no two of them at the same one. -/
structure UniqueMinutes (cs : List Candle) : Prop where
  whole : ∀ c ∈ cs, 60 ∣ ts tz c
  nodup : (cs.map (ts tz)).Nodup

/-- How many minutes both series have. -/
def bothMinutes (candlesA candlesB : List Candle) : ℕ :=
  (seconds tz candlesA ∩ seconds tz candlesB).card

/-- The minutes of an overlap. -/
def windowMinutes (overlap : Overlap) : Finset ℤ :=
  (Finset.range overlap.overlapMinutes.toNat).image fun k : ℕ => overlap.overlapFrom + 60 * k

/-- How many minutes of the overlap of two series one of them misses. -/
def missingIn (cs : List Candle) (overlap : Overlap) : ℕ :=
  (windowMinutes overlap \ seconds tz cs).card

variable {tz} {cs candlesA candlesB : List Candle} {t : ℤ}

@[simp] theorem mem_seconds : t ∈ seconds tz cs ↔ ∃ c ∈ cs, ts tz c = t := by
  simp [seconds]

theorem mem_sortedTs : t ∈ sortedTs tz cs ↔ t ∈ seconds tz cs := by
  rw [sortedTs, (List.perm_insertionSort _ _).mem_iff, seconds, List.mem_toFinset]

theorem pairwise_sortedTs (cs : List Candle) : (sortedTs tz cs).Pairwise (· ≤ ·) :=
  List.pairwise_insertionSort _ _

theorem firstTs_le (h : t ∈ seconds tz cs) : firstTs tz cs ≤ t :=
  headD_le (pairwise_sortedTs cs) (mem_sortedTs.2 h) 0

theorem le_lastTs (h : t ∈ seconds tz cs) : t ≤ lastTs tz cs :=
  le_getLastD (pairwise_sortedTs cs) (mem_sortedTs.2 h) 0

theorem UniqueMinutes.card_seconds (h : UniqueMinutes tz cs) :
    (seconds tz cs).card = cs.length := by
  rw [seconds, List.toFinset_card_of_nodup h.nodup, List.length_map]

/-- A series has no more candles than there are minutes from the first one to the last one. -/
theorem UniqueMinutes.length_le (h : UniqueMinutes tz cs) : (cs.length : ℤ) ≤ expected tz cs := by
  have hmaps : ∀ t ∈ seconds tz cs,
      (t - firstTs tz cs) / 60 ∈ Finset.Icc 0 ((lastTs tz cs - firstTs tz cs) / 60) := by
    intro t ht
    have hfirst := firstTs_le ht
    have hlast := le_lastTs ht
    rw [Finset.mem_Icc]
    omega
  have hinj : Set.InjOn (fun t => (t - firstTs tz cs) / 60) (seconds tz cs : Set ℤ) := by
    intro t ht u hu htu
    obtain ⟨c, hc, rfl⟩ := mem_seconds.1 (Finset.mem_coe.1 ht)
    obtain ⟨d, hd, rfl⟩ := mem_seconds.1 (Finset.mem_coe.1 hu)
    have hcwhole := h.whole c hc
    have hdwhole := h.whole d hd
    simp only at htu
    omega
  have hcard := Finset.card_le_card_of_injOn _ hmaps hinj
  rw [h.card_seconds, Int.card_Icc] at hcard
  rw [expected]
  omega

/-- A minute of the overlap is in both series, or one of them misses it. -/
theorem window_le (tz : ZoneInfo) (candlesA candlesB : List Candle) (overlap : Overlap) :
    overlap.overlapMinutes ≤ bothMinutes tz candlesA candlesB + missingIn tz candlesA overlap +
      missingIn tz candlesB overlap := by
  have hcard : (windowMinutes overlap).card = overlap.overlapMinutes.toNat := by
    rw [windowMinutes, Finset.card_image_of_injective _ fun k l hkl => ?_, Finset.card_range]
    omega
  have hsub : windowMinutes overlap ⊆ (seconds tz candlesA ∩ seconds tz candlesB) ∪
      (windowMinutes overlap \ seconds tz candlesA) ∪
      (windowMinutes overlap \ seconds tz candlesB) := by
    intro t ht
    simp only [Finset.mem_union, Finset.mem_inter, Finset.mem_sdiff]
    tauto
  have hle : (windowMinutes overlap).card ≤ bothMinutes tz candlesA candlesB +
      missingIn tz candlesA overlap + missingIn tz candlesB overlap :=
    calc (windowMinutes overlap).card
        ≤ _ := Finset.card_le_card hsub
      _ ≤ _ := Finset.card_union_le _ _
      _ ≤ _ := Nat.add_le_add_right (Finset.card_union_le _ _) _
  omega

/-! ### The join -/

/-- The first candles of the join are those whose minute the other series has. -/
theorem map_fst_innerJoin (candlesA candlesB : List Candle) :
    ((innerJoin tz candlesA candlesB 0).map Prod.fst).Perm
      (candlesA.filter fun ca => ts tz ca ∈ seconds tz candlesB) := by
  refine ((StableSort.sortBy_perm _).map Prod.fst).trans (List.Perm.of_eq ?_)
  induction candlesA with
  | nil => rfl
  | cons ca cs ih =>
      rw [List.filterMap_cons, zero_mul, add_zero, Dict.get?_keyed]
      cases hget : Dict.latest (ts tz) candlesB (ts tz ca) with
      | none =>
          have hnot : ts tz ca ∉ seconds tz candlesB := fun hmem =>
            let ⟨cb, hcb, heq⟩ := mem_seconds.1 hmem
            Dict.latest_eq_none_iff.1 hget cb hcb heq
          rw [List.filter_cons_of_neg (by simpa using hnot)]
          exact ih
      | some cb =>
          have hmem : ts tz ca ∈ seconds tz candlesB := mem_seconds.2 ⟨cb, Dict.latest_eq_some hget⟩
          rw [List.filter_cons_of_pos (by simpa using hmem)]
          exact congrArg (ca :: ·) ih

/-- The minutes of both series lie in the overlap. -/
theorem alignedIn_eq (candlesA candlesB : List Candle) :
    alignedIn tz candlesA candlesB = innerJoin tz candlesA candlesB 0 := by
  refine List.filter_eq_self.2 fun p hp => ?_
  have hfst := (map_fst_innerJoin candlesA candlesB).mem_iff.1 (List.mem_map_of_mem hp)
  obtain ⟨ha, hb⟩ := List.mem_filter.1 hfst
  have ha : ts tz p.1 ∈ seconds tz candlesA := mem_seconds.2 ⟨p.1, ha, rfl⟩
  have hb : ts tz p.1 ∈ seconds tz candlesB := of_decide_eq_true hb
  have hlastA := le_lastTs ha
  have hlastB := le_lastTs hb
  exact decide_eq_true ⟨max_le (firstTs_le ha) (firstTs_le hb), lt_min (by omega) (by omega)⟩

/-- As many pairs are joined as both series have minutes. -/
theorem UniqueMinutes.length_alignedIn (h : UniqueMinutes tz candlesA) (candlesB : List Candle) :
    (alignedIn tz candlesA candlesB).length = bothMinutes tz candlesA candlesB := by
  have hnodup : ((candlesA.filter fun ca => ts tz ca ∈ seconds tz candlesB).map (ts tz)).Nodup :=
    h.nodup.sublist (List.filter_sublist.map _)
  have hinter : seconds tz candlesA ∩ seconds tz candlesB =
      ((candlesA.filter fun ca => ts tz ca ∈ seconds tz candlesB).map (ts tz)).toFinset := by
    ext t
    simp only [Finset.mem_inter, mem_seconds, List.mem_toFinset, List.mem_map, List.mem_filter,
      decide_eq_true_eq]
    constructor
    · rintro ⟨⟨ca, hca, rfl⟩, hb⟩
      exact ⟨ca, ⟨hca, hb⟩, rfl⟩
    · rintro ⟨ca, ⟨hca, hb⟩, rfl⟩
      exact ⟨⟨ca, hca, rfl⟩, hb⟩
  calc (alignedIn tz candlesA candlesB).length
      = ((innerJoin tz candlesA candlesB 0).map Prod.fst).length := by
        rw [alignedIn_eq, List.length_map]
    _ = (candlesA.filter fun ca => ts tz ca ∈ seconds tz candlesB).length :=
        (map_fst_innerJoin candlesA candlesB).length_eq
    _ = bothMinutes tz candlesA candlesB := by
        rw [bothMinutes, hinter, List.toFinset_card_of_nodup hnodup, List.length_map]

end Minutes

/-! ### What the metrics rest on -/

section Metrics

variable {fl : FloatFns} {tz : ZoneInfo} {aligned : List (Candle × Candle)} {symbol : String}

/-- There is a return for each pair but the first one. -/
theorem length_returnPairs {returns : List (ℚ × ℚ)} (h : returnPairs fl aligned = some returns) :
    returns.length = aligned.length - 1 := by
  rw [List.length_mapM h, List.length_zip, List.length_tail]
  exact min_eq_right (Nat.sub_le _ _)

theorem returnMetrics_of_lt {rets : ReturnMetrics} (h : returnMetrics fl aligned = some rets)
    (hlt : aligned.length < 2) : rets.dirAgreePct = 0 := by
  rw [returnMetrics, if_pos hlt] at h
  obtain rfl := Option.some.inj h
  rfl

theorem eligibleCount_filteredOf_le (eps : ℚ) (returns : List (ℚ × ℚ)) :
    (filteredOf eps returns).eligibleCount ≤ returns.length := by
  rw [filteredOf]
  split
  · exact Nat.zero_le _
  · exact List.length_filter_le _ _

/-- No more returns are eligible than there are. -/
theorem eligibleCount_le {daf : DirAgreeFiltered}
    (h : dirAgreeFiltered fl aligned symbol = some daf) : daf.eligibleCount ≤ aligned.length - 1 := by
  rw [dirAgreeFiltered] at h
  split at h
  · obtain rfl := Option.some.inj h
    exact Nat.zero_le _
  · obtain ⟨returns, hreturns, rfl⟩ := Option.map_eq_some_iff.1 h
    rw [← length_returnPairs hreturns]
    exact eligibleCount_filteredOf_le _ _

/-- The minutes in which the market is open are among the joined ones. -/
theorem returnsMarketOpenFiltered_le {rmo : MarketOpenMetrics}
    (h : returnsMarketOpenFiltered fl tz aligned symbol = some rmo) :
    rmo.nOpenPairs ≤ aligned.length ∧ rmo.eligibleCount.getD 0 ≤ aligned.length - 1 := by
  rw [returnsMarketOpenFiltered] at h
  split at h
  · obtain rfl := Option.some.inj h
    exact ⟨Nat.zero_le _, Nat.zero_le _⟩
  · simp only at h
    split at h
    · rename_i daf _ hdaf
      obtain rfl := Option.some.inj h
      exact ⟨List.length_filter_le _ _,
        (eligibleCount_le hdaf).trans (Nat.sub_le_sub_right (List.length_filter_le _ _) 1)⟩
    · cases h

end Metrics

/-! ### The gates -/

section Gates

variable {report : Report}

/-- The verdicts that let a series pass. -/
def Passes (report : Report) : Prop :=
  (computeCompatVerdict report).1 = .compatible ∨ (computeCompatVerdict report).1 = .passBacktest

/-- A report passes the gate of the overlap, and one of the two gates of the returns. -/
theorem Passes.gates (h : Passes report) :
    pctOverlapMin ≤ report.pctA ∧ pctOverlapMin ≤ report.pctB ∧
      ((computeCompatVerdict report).1 = .compatible → dirAgreeCompatibleMin ≤ report.dirAgree) ∧
      ((computeCompatVerdict report).1 = .passBacktest →
        dirAgreeFilteredMinEligible ≤ report.filtered.2) := by
  rw [Passes] at h
  rw [computeCompatVerdict] at h ⊢
  split_ifs at h ⊢ with hzr hpct hoffset hoffset' hstrict hrobust hpartial
  · simp at h
  · simp at h
  · simp at h
  · simp at h
  · exact ⟨not_lt.1 (not_or.1 hpct).1, not_lt.1 (not_or.1 hpct).2, fun _ => hstrict.2, by simp⟩
  · exact ⟨not_lt.1 (not_or.1 hpct).1, not_lt.1 (not_or.1 hpct).2, by simp, fun _ => hrobust.2.1⟩
  · simp at h
  · simp at h

/-- A report with less overlap is rejected. -/
theorem verdict_of_lt (h : report.pctA < pctOverlapMin ∨ report.pctB < pctOverlapMin) :
    (computeCompatVerdict report).1 = .incompatible ∨
      ((computeCompatVerdict report).1 = .dataQualityFail ∧ zeroRangeFailThreshold < report.zrA) := by
  rw [computeCompatVerdict]
  by_cases hzr : zeroRangeFailThreshold < report.zrA
  · rw [if_pos hzr]
    exact Or.inr ⟨rfl, hzr⟩
  · rw [if_neg hzr, if_pos h]
    exact Or.inl rfl

/-- Agreement of the returns takes two joined minutes, eligible returns take more. -/
structure RestsOn (report : Report) (joined : ℕ) : Prop where
  dirAgree : joined < 2 → report.dirAgree = 0
  filtered : report.filtered.2 ≤ joined - 1

theorem restsOn {joined : ℕ}
    (hreturns : ∀ rets ∈ report.returns, joined < 2 → rets.dirAgreePct = 0)
    (hrmo : ∀ rmo ∈ report.returnsMarketOpen,
      rmo.nOpenPairs ≤ joined ∧ rmo.eligibleCount.getD 0 ≤ joined - 1)
    (hdaf : ∀ daf ∈ report.dirAgreeFiltered, daf.eligibleCount ≤ joined - 1) :
    RestsOn report joined where
  dirAgree hlt := by
    have hopen : ¬ marketOpenMinPairs ≤ report.nOpen := by
      rw [Report.nOpen, marketOpenMinPairs]
      cases h : report.returnsMarketOpen with
      | none => simp
      | some rmo =>
          have hle := (hrmo rmo h).1
          simp only [Option.map_some, Option.getD_some]
          omega
    rw [Report.dirAgree, if_neg hopen]
    cases h : report.returns with
    | none => rfl
    | some rets => exact hreturns rets h hlt
  filtered := by
    have hrmo' : (report.openMetric fun rmo => rmo.eligibleCount.getD 0) ≤ joined - 1 := by
      rw [Report.openMetric]
      split
      · cases h : report.returnsMarketOpen with
        | none => exact Nat.zero_le _
        | some rmo => exact (hrmo rmo h).2
      · exact Nat.zero_le _
    rw [Report.filtered]
    split
    · exact hrmo'
    · cases h : report.dirAgreeFiltered with
      | none => exact Nat.zero_le _
      | some daf => exact hdaf daf h

end Gates

section Run

variable {fl : FloatFns} {tz : ZoneInfo} {candlesA candlesB : List Candle} {symbol : String}
  {report : Report}

/-- What the verdict reads of a report that was built. -/
structure Built (tz : ZoneInfo) (candlesA candlesB : List Candle) (report : Report) : Prop where
  window : report.windowMinutes = (overlapOf tz candlesA candlesB).overlapMinutes
  pctA : report.pctA = (overlapOf tz candlesA candlesB).pctOverlapOverA
  pctB : report.pctB = (overlapOf tz candlesA candlesB).pctOverlapOverB
  quality : report.candleQuality = candleQuality (alignedIn tz candlesA candlesB)
  rests : RestsOn report (alignedIn tz candlesA candlesB).length
  verdict : report.verdict = some (computeCompatVerdict report)

/-- A report is built on two series with candles, or it says nothing. -/
theorem buildCompatReport_cases (h : buildCompatReport fl tz candlesA candlesB symbol = some report) :
    ((candlesA = [] ∨ candlesB = []) ∧ report = emptyReport symbol) ∨
      (candlesA ≠ [] ∧ candlesB ≠ [] ∧ Built tz candlesA candlesB report) := by
  rw [buildCompatReport] at h
  split at h
  · rename_i hempty
    rw [Bool.or_eq_true, List.isEmpty_iff, List.isEmpty_iff] at hempty
    exact Or.inl ⟨hempty, (Option.some.inj h).symm⟩
  · rename_i hne
    rw [Bool.or_eq_true, List.isEmpty_iff, List.isEmpty_iff, not_or] at hne
    obtain ⟨start, -, h⟩ := Option.bind_eq_some_iff.1 h
    obtain ⟨end_, -, h⟩ := Option.bind_eq_some_iff.1 h
    obtain ⟨integrityA, -, h⟩ := Option.bind_eq_some_iff.1 h
    obtain ⟨integrityB, -, h⟩ := Option.bind_eq_some_iff.1 h
    obtain ⟨scan, -, h⟩ := Option.bind_eq_some_iff.1 h
    obtain ⟨rets, hrets, h⟩ := Option.bind_eq_some_iff.1 h
    obtain ⟨rmo, hrmo, h⟩ := Option.bind_eq_some_iff.1 h
    obtain ⟨daf, hdaf, h⟩ := Option.bind_eq_some_iff.1 h
    obtain rfl := Option.some.inj h
    refine Or.inr ⟨hne.1, hne.2, rfl, rfl, rfl, rfl, restsOn ?_ ?_ ?_, rfl⟩
    · intro rets' hrets' hlt
      obtain rfl := Option.some.inj hrets'
      exact returnMetrics_of_lt hrets hlt
    · intro rmo' hrmo'
      obtain ⟨-, heq⟩ := Option.ite_none_left_eq_some.1 hrmo'
      obtain rfl := Option.some.inj heq
      exact returnsMarketOpenFiltered_le hrmo
    · intro daf' hdaf'
      obtain ⟨-, heq⟩ := Option.ite_none_left_eq_some.1 hdaf'
      obtain rfl := Option.some.inj heq
      exact eligibleCount_le hdaf

theorem expected_pos (tz : ZoneInfo) (cs : List Candle) : 0 < expected tz cs :=
  lt_max_of_lt_left one_pos

theorem Built.pctA_iff (h : Built tz candlesA candlesB report) :
    pctOverlapMin ≤ report.pctA ↔ 9999 * expected tz candlesA ≤ 20000 * report.windowMinutes := by
  rw [h.pctA, h.window]
  exact pctOverlapMin_le_iff _ (expected_pos tz candlesA)

theorem Built.pctB_iff (h : Built tz candlesA candlesB report) :
    pctOverlapMin ≤ report.pctB ↔ 9999 * expected tz candlesB ≤ 20000 * report.windowMinutes := by
  rw [h.pctB, h.window]
  exact pctOverlapMin_le_iff _ (expected_pos tz candlesB)

/-- How many of the joined candles of the first series have no range. -/
def zeroRanges (tz : ZoneInfo) (candlesA candlesB : List Candle) : ℕ :=
  candlesA.countP fun c => c.ohlcv.high = c.ohlcv.low ∧ ts tz c ∈ seconds tz candlesB

/-- The gate of the quality fails where more than a fifth of the joined candles have no range. -/
theorem Built.zeroRanges_of_lt (h : Built tz candlesA candlesB report)
    (hA : UniqueMinutes tz candlesA) (hlt : zeroRangeFailThreshold < report.zrA) :
    bothMinutes tz candlesA candlesB < 5 * zeroRanges tz candlesA candlesB := by
  have hcount : ((alignedIn tz candlesA candlesB).map Prod.fst).countP
      (fun c => c.ohlcv.high = c.ohlcv.low) = zeroRanges tz candlesA candlesB := by
    rw [alignedIn_eq, (map_fst_innerJoin candlesA candlesB).countP_eq, List.countP_filter, zeroRanges]
    refine List.countP_congr fun c _ => ?_
    simp
  rw [Report.zrA, h.quality, candleQuality] at hlt
  split at hlt
  · exact absurd hlt (by decide +kernel)
  · rename_i hne
    have hpos : (0 : ℚ) < ((alignedIn tz candlesA candlesB).map Prod.fst).length := by
      rw [List.isEmpty_iff, ← List.length_eq_zero_iff] at hne
      rw [List.length_map]
      exact_mod_cast Nat.pos_of_ne_zero hne
    simp only [Option.map_some, Option.getD_some, qualityOf] at hlt
    rw [hcount, zeroRangeFailThreshold, lt_div_iff₀ hpos, List.length_map, hA.length_alignedIn] at hlt
    have hlt : (bothMinutes tz candlesA candlesB : ℚ) < 5 * zeroRanges tz candlesA candlesB := by
      linarith
    exact_mod_cast hlt

/-- A pass rests on the joined minutes. -/
theorem Built.joined (h : Built tz candlesA candlesB report) (hA : UniqueMinutes tz candlesA)
    (hpass : Passes report) :
    2 ≤ bothMinutes tz candlesA candlesB ∧
      ((computeCompatVerdict report).1 = .passBacktest → 101 ≤ bothMinutes tz candlesA candlesB) := by
  have hrests := h.rests
  rw [hA.length_alignedIn] at hrests
  obtain ⟨-, -, hcompatible, hbacktest⟩ := hpass.gates
  have heligible : (computeCompatVerdict report).1 = .passBacktest →
      101 ≤ bothMinutes tz candlesA candlesB := by
    intro hverdict
    have hmin : 100 ≤ report.filtered.2 := hbacktest hverdict
    have hle := hrests.filtered
    omega
  refine ⟨?_, heligible⟩
  rcases hpass with hverdict | hverdict
  · by_contra hlt
    have hmin := hcompatible hverdict
    rw [hrests.dirAgree (not_le.1 hlt)] at hmin
    exact absurd hmin (by decide +kernel)
  · exact le_trans (by decide) (heligible hverdict)

end Run

/-! ### Two sparse series -/

/-- The logarithms of a rise by a thousandth and of the fall that undoes it. -/
def smallMoves : FloatFns where
  log x :=
    if x = 1001 / 1000 then 9995003330835332 / 10 ^ 19
    else if x = 1000 / 1001 then -(9995003330835332 / 10 ^ 19)
    else 0
  sqrt := Rat.sqrt

/-- New York in January. -/
def january : ZoneInfo where
  newYork _ _ := -18000
  offsetAt _ := -18000
  foldAt _ := false

theorem minute_minyear (minute : Fin 1440) :
    monthStart 12 ≤ 1704153600000000 + 60000000 * (minute : ℕ) := by
  have hmin : monthStart 12 ≤ 1704153600000000 := by decide +kernel
  omega

theorem minute_maxyear (minute : Fin 1440) :
    1704153600000000 + 60000000 * (minute : ℕ) < monthStart 120000 := by
  have hmax : 1704240000000000 ≤ monthStart 120000 := by decide +kernel
  have hlt := minute.isLt
  omega

/-- A candle some minutes after the start of 2 January 2024, at the one close or the other. -/
def minuteCandle (minute : Fin 1440) (risen : Bool) : Candle where
  timestamp :=
    { zone := .utc
      wall := 1704153600000000 + 60000000 * (minute : ℕ)
      fold := false
      minyear := minute_minyear minute
      maxyear := minute_maxyear minute }
  ohlcv :=
    { open_ := 1, high := 1002 / 1000, low := 999 / 1000
      close := if risen then 1001 / 1000 else 1, volume := 0
      low_le_high := by norm_num, low_le_open := by norm_num, open_le_high := by norm_num
      low_le_close := by cases risen <;> norm_num
      close_le_high := by cases risen <;> norm_num
      volume_nonneg := (Ohlcv.flat 1).volume_nonneg }
  isClosed := true

/-- Four minutes that both series have. -/
def sharedCandles : List Candle :=
  [minuteCandle 0 false, minuteCandle 10 true, minuteCandle 20 false, minuteCandle 30 false]

def sparseA : List Candle :=
  sharedCandles ++ [1000, 1100, 1200, 1300, 1400].map fun minute => minuteCandle minute false

def sparseB : List Candle :=
  sharedCandles ++ [1050, 1150, 1250, 1350, 1430].map fun minute => minuteCandle minute false

theorem sparseA_uniqueMinutes : UniqueMinutes january sparseA :=
  ⟨by decide +kernel, by decide +kernel⟩

theorem sparseB_uniqueMinutes : UniqueMinutes january sparseB :=
  ⟨by decide +kernel, by decide +kernel⟩

theorem sparse_verdict :
    (buildCompatReport smallMoves january sparseA sparseB "EURUSD").map
      (fun report => (computeCompatVerdict report).1) = some .compatible := by
  decide +kernel

/-! ### What a pass rests on -/

/-- A pass needs an overlap of half of each span, up to the rounding of the percentages.  As many
minutes of it are joined as neither series misses, so that half of the candles are joined but for the
minutes of the overlap that are missing. -/
theorem pass_spec (fl : FloatFns) (tz : ZoneInfo) (candlesA candlesB : List Candle)
    (hA : UniqueMinutes tz candlesA) (hB : UniqueMinutes tz candlesB) (symbol : String)
    (report : Report)
    (h : buildCompatReport fl tz candlesA candlesB symbol = some report) :
    (Passes report →
      9999 * expected tz candlesA ≤ 20000 * report.windowMinutes ∧
      9999 * expected tz candlesB ≤ 20000 * report.windowMinutes ∧
      (∀ cs ∈ [candlesA, candlesB], 9999 * cs.length ≤
        20000 * (bothMinutes tz candlesA candlesB +
          missingIn tz candlesA (overlapOf tz candlesA candlesB) +
          missingIn tz candlesB (overlapOf tz candlesA candlesB))) ∧
      2 ≤ bothMinutes tz candlesA candlesB ∧
      ((computeCompatVerdict report).1 = .passBacktest →
        101 ≤ bothMinutes tz candlesA candlesB)) ∧
    (candlesA = [] ∨ candlesB = [] → (computeCompatVerdict report).1 = .incompatible) ∧
    (candlesA ≠ [] → candlesB ≠ [] →
      report.verdict = some (computeCompatVerdict report) ∧
      (20000 * report.windowMinutes < 9999 * expected tz candlesA ∨
          20000 * report.windowMinutes < 9999 * expected tz candlesB →
        (computeCompatVerdict report).1 = .incompatible ∨
          ((computeCompatVerdict report).1 = .dataQualityFail ∧
            bothMinutes tz candlesA candlesB < 5 * zeroRanges tz candlesA candlesB))) := by
  rcases buildCompatReport_cases h with ⟨hempty, rfl⟩ | ⟨hneA, hneB, hbuilt⟩
  · have hverdict : (computeCompatVerdict (emptyReport symbol)).1 = .incompatible := by
      have hlt : (emptyReport symbol).pctA < pctOverlapMin :=
        show (0 : ℚ) < 50 by norm_num
      have hzr : ¬ zeroRangeFailThreshold < (emptyReport symbol).zrA :=
        show ¬ (20 : ℚ) / 100 < 0 by norm_num
      exact (verdict_of_lt (Or.inl hlt)).resolve_right fun hfail => hzr hfail.2
    refine ⟨fun hpass => ?_, fun _ => hverdict, fun hneA hneB => ?_⟩
    · rw [Passes, hverdict] at hpass
      simp at hpass
    · exact absurd hempty (not_or.2 ⟨hneA, hneB⟩)
  · refine ⟨fun hpass => ?_, fun hempty => ?_, fun _ _ => ⟨hbuilt.verdict, fun hlt => ?_⟩⟩
    · have hspanA := hbuilt.pctA_iff.1 hpass.gates.1
      have hspanB := hbuilt.pctB_iff.1 hpass.gates.2.1
      refine ⟨hspanA, hspanB, fun cs hcs => ?_, hbuilt.joined hA hpass⟩
      have hwindow := window_le tz candlesA candlesB (overlapOf tz candlesA candlesB)
      rw [← hbuilt.window] at hwindow
      have hlength : 9999 * (cs.length : ℤ) ≤ 20000 * report.windowMinutes := by
        rcases List.mem_pair.1 hcs with rfl | rfl
        · exact (Int.mul_le_mul_of_nonneg_left hA.length_le (by decide)).trans hspanA
        · exact (Int.mul_le_mul_of_nonneg_left hB.length_le (by decide)).trans hspanB
      omega
    · exact absurd hempty (not_or.2 ⟨hneA, hneB⟩)
    · have hgate : report.pctA < pctOverlapMin ∨ report.pctB < pctOverlapMin := by
        rcases hlt with hlt | hlt
        · exact Or.inl (not_le.1 fun hle => not_lt.2 (hbuilt.pctA_iff.1 hle) hlt)
        · exact Or.inr (not_le.1 fun hle => not_lt.2 (hbuilt.pctB_iff.1 hle) hlt)
      rcases verdict_of_lt hgate with hverdict | ⟨hverdict, hzr⟩
      · exact Or.inl hverdict
      · exact Or.inr ⟨hverdict, hbuilt.zeroRanges_of_lt hA hzr⟩

theorem pass_spec_sparse :
    ∃ report, buildCompatReport smallMoves january sparseA sparseB "EURUSD" = some report ∧
      9999 * expected january sparseA ≤ 20000 * report.windowMinutes ∧
      9999 * expected january sparseB ≤ 20000 * report.windowMinutes ∧
      (∀ cs ∈ [sparseA, sparseB], 9999 * cs.length ≤ 20000 * (bothMinutes january sparseA sparseB +
        missingIn january sparseA (overlapOf january sparseA sparseB) +
        missingIn january sparseB (overlapOf january sparseA sparseB))) ∧
      2 ≤ bothMinutes january sparseA sparseB := by
  obtain ⟨report, h, hverdict⟩ := Option.map_eq_some_iff.1 sparse_verdict
  obtain ⟨hspanA, hspanB, hlength, hjoined, -⟩ :=
    (pass_spec smallMoves january sparseA sparseB sparseA_uniqueMinutes sparseB_uniqueMinutes
      "EURUSD" report h).1 (Or.inl hverdict)
  exact ⟨report, h, hspanA, hspanB, hlength, hjoined⟩

/-- Two series of nine candles over a day, of which four are of the same minutes, are compatible. -/
theorem sparse_compatible :
    UniqueMinutes january sparseA ∧ UniqueMinutes january sparseB ∧
      (∃ report, buildCompatReport smallMoves january sparseA sparseB "EURUSD" = some report ∧
        (computeCompatVerdict report).1 = .compatible) ∧
      2 * bothMinutes january sparseA sparseB < sparseA.length ∧
      2 * bothMinutes january sparseA sparseB < sparseB.length :=
  ⟨sparseA_uniqueMinutes, sparseB_uniqueMinutes, Option.map_eq_some_iff.1 sparse_verdict,
    by decide +kernel, by decide +kernel⟩

end CompatReport
