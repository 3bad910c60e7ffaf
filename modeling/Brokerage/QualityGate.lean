/-
**The gate on the quality of candles, and the headers that it reads.**

An answer with candles carries headers on the window that it covers, on the minutes that are missing
in it and on its largest gap.  Before an order is placed live a gate reads these headers, and nothing
else: it counts neither the candles nor the minutes.  What it lets pass is as good as what the
headers say, and four producers make them.  Two of them speak of the window from the first candle to
the last one, and say that nothing is missing where there is no candle at all.  The other two speak
of the requested window, and measure it by the clock of its zone.

Main definitions:

* `QualityGate.evaluateQualityGate` — the gate;
* `computeXdataHeaders`, `computeXdataHeadersMixed`, `buildP5Headers`, `computeXdataHeadersBacktest`
  — the producers;
* `DataRequest.Sound` — what passes the gate has candles and does not lack too many;
* `DataRequest.Covers` — when the headers speak of the requested window.

Main results:

* `QualityGate.status_ok_iff` — what the gate lets pass;
* `DataRequest.sound_iff` — exactly when what passes is sound, whatever the limits are;
* `DataRequest.passes_empty` — a window without a candle that passes.
-/

import Brokerage.GapValidator
import Brokerage.GridWindow
import Brokerage.MixedOhlcv
import Brokerage.Text

set_option relaxedAutoImplicit false
set_option autoImplicit false

/-- The headers of an answer. -/
abbrev Headers := List (String × String)

namespace QualityGate

/-! ### The gate -/

inductive Status
  | ok
  | bad
  deriving DecidableEq

/-- What a result is due to. -/
inductive Reason
  | missingHeaders
  | gaps (missingMinutes allowed : ℤ)
  | gapTooLarge (gapS max : ℤ)
  | lowCompleteness (completeness min : ℚ)
  | ok
  deriving DecidableEq

structure QualityMeta where
  source : String
  coverageFrom : ℤ
  coverageTo : ℤ
  freshnessSec : ℤ
  missingMinutes : ℤ
  maxGapS : ℤ
  completeness : ℚ
  candlesCount : ℕ
  allowed : Option ℤ
  deriving DecidableEq

structure QualityGateResult where
  status : Status
  reason : Reason
  qualityMeta : QualityMeta
  deriving DecidableEq

/-- A header as a number, or the default where it is absent or no number. -/
def parseInt (headers : Headers) (key : String) (default : ℤ) : ℤ :=
  match headers.find? fun h => Text.lower h.1 = Text.lower key with
  | none => default
  | some h => (Text.toInt? h.2).getD default

def parseStr (headers : Headers) (key : String) (default : String) : String :=
  match headers.find? fun h => Text.lower h.1 = Text.lower key with
  | none => default
  | some h => h.2

/-- The limits of the gate.  Where no limit on the missing minutes is given, that of the environment
is taken. -/
structure Limits where
  maxFreshnessSec : ℤ
  minCompleteness : ℚ
  maxGapS : ℤ
  maxMissingMinutes : Option ℤ
  envMaxMissingMinutes : ℤ

/-- The minutes that may be missing. -/
def Limits.allowed (limits : Limits) : ℤ :=
  limits.maxMissingMinutes.getD limits.envMaxMissingMinutes

/-- `round(x)`: the nearest integer, and the even one of two. -/
def roundHalfEven (x : ℚ) : ℤ :=
  if x - x.floor < 1 / 2 then x.floor
  else if 1 / 2 < x - x.floor then x.floor + 1
  else if x.floor % 2 = 0 then x.floor
  else x.floor + 1

theorem roundHalfEven_nonneg {x : ℚ} (hx : 0 ≤ x) : 0 ≤ roundHalfEven x := by
  have hfloor : 0 ≤ x.floor := Rat.le_floor_iff.2 (by simpa using hx)
  rw [roundHalfEven]
  split_ifs <;> omega

@[simp] theorem roundHalfEven_intCast (n : ℤ) : roundHalfEven n = n := by
  simp [roundHalfEven, Rat.floor_intCast]

/-- A number is rounded to an even one or more from half below it on. -/
theorem le_roundHalfEven_iff {n : ℤ} (hn : n % 2 = 0) (x : ℚ) :
    n ≤ roundHalfEven x ↔ (n : ℚ) - 1 / 2 ≤ x := by
  have hfloor : (x.floor : ℚ) ≤ x := Rat.floor_le x
  have hlt : x < (x.floor : ℚ) + 1 := by exact_mod_cast Rat.lt_floor_add_one x
  rw [roundHalfEven]
  split_ifs with hbelow habove heven
  · constructor
    · intro h
      have h : (n : ℚ) ≤ x.floor := by exact_mod_cast h
      linarith
    · intro h
      have h : (n : ℚ) < x.floor + 1 := by linarith
      exact Int.lt_add_one_iff.1 (by exact_mod_cast h)
  · constructor
    · intro h
      have h : (n : ℚ) ≤ x.floor + 1 := by exact_mod_cast h
      linarith
    · intro h
      have h : (n : ℚ) < x.floor + 1 + 1 := by linarith
      exact Int.lt_add_one_iff.1 (by exact_mod_cast h)
  -- half way between the floor and the next number
  · have hx : x = x.floor + 1 / 2 := by linarith
    constructor
    · intro h
      have h : (n : ℚ) ≤ x.floor := by exact_mod_cast h
      linarith
    · intro h
      have h : (n : ℚ) ≤ x.floor + 1 := by linarith
      have h : n ≤ x.floor + 1 := by exact_mod_cast h
      omega
  · have hx : x = x.floor + 1 / 2 := by linarith
    constructor
    · intro h
      have h : (n : ℚ) ≤ x.floor + 1 := by exact_mod_cast h
      linarith
    · intro h
      have h : (n : ℚ) ≤ x.floor + 1 := by linarith
      exact_mod_cast h

/-- `round(x, 4)`. -/
def round4 (x : ℚ) : ℚ := roundHalfEven (10000 * x) / 10000

/-- The minutes of the window that is covered, if both headers are there. -/
def coverageWindowMin (coverageFrom coverageTo : ℤ) : ℤ :=
  if 0 < coverageFrom ∧ 0 < coverageTo then max 0 ((coverageTo - coverageFrom) / 60) else 0

def completenessOf (coverageFrom coverageTo missingMinutes : ℤ) : ℚ :=
  let window := coverageWindowMin coverageFrom coverageTo
  if 0 < window then round4 ((window - missingMinutes : ℤ) / window) else 1

def evaluateQualityGate (now : ℤ) (headers : Headers) (candlesCount : ℕ) (limits : Limits) :
    QualityGateResult :=
  let coverageFrom := parseInt headers "x-data-coverage-from" (-1)
  let coverageTo := parseInt headers "x-data-coverage-to" (-1)
  let missingMinutes := parseInt headers "x-data-missing-minutes" 0
  let gapS := parseInt headers "x-data-max-gap-s" 0
  let source := parseStr headers "x-data-source" "unknown"
  let freshnessSec := if 0 < coverageTo then max 0 (now - coverageTo) else -1
  let completeness := completenessOf coverageFrom coverageTo missingMinutes
  let qualityMeta : QualityMeta := ⟨source, coverageFrom, coverageTo, freshnessSec, missingMinutes,
    gapS, completeness, candlesCount, none⟩
  if coverageFrom < 0 ∨ coverageTo < 0 then
    ⟨.bad, .missingHeaders, qualityMeta⟩
  else if limits.allowed < missingMinutes then
    ⟨.bad, .gaps missingMinutes limits.allowed, { qualityMeta with allowed := limits.allowed }⟩
  else if limits.maxGapS < gapS then
    ⟨.bad, .gapTooLarge gapS limits.maxGapS, qualityMeta⟩
  else if completeness < limits.minCompleteness then
    ⟨.bad, .lowCompleteness completeness limits.minCompleteness, qualityMeta⟩
  else
    -- candles that are not fresh are only logged
    ⟨.ok, .ok, qualityMeta⟩

end QualityGate

/-! ### The producers of the headers -/

/-- The headers that every producer makes. -/
def xDataHeaders (source : String) (coverageFrom coverageTo missingMinutes maxGapS : ℤ) :
    Headers :=
  [("X-Data-Source", source), ("X-Data-Coverage-From", toString coverageFrom),
    ("X-Data-Coverage-To", toString coverageTo),
    ("X-Data-Missing-Minutes", toString missingMinutes), ("X-Data-Max-Gap-S", toString maxGapS)]

/-- The largest of some numbers and zero. -/
def largest (ns : List ℤ) : ℤ := ns.foldl (fun m n => if m < n then n else m) 0

/-- The headers for rows: of the window from the first row to the last one. -/
def rowHeaders (source : String) (candles : List OhlcvRow) (fromTs toTs : Option ℤ) : Headers :=
  match candles.map OhlcvRow.ts with
  | [] => xDataHeaders source (fromTs.getD 0) (toTs.getD 0) 0 0
  | first :: more =>
      let coverageFrom := first
      let coverageTo := more.getLastD first + 60
      let expected := max 0 ((coverageTo - coverageFrom) / 60)
      let missing := max 0 (expected - (first :: more).length)
      let gaps := ((first :: more).zip more).map fun p => p.2 - p.1 - 60
      xDataHeaders source coverageFrom coverageTo missing (largest gaps)

/-- The headers of the parquet query. -/
def computeXdataHeaders (sourceLabel : String) (candles : List OhlcvRow)
    (fromTs toTs : Option ℤ) : Headers :=
  rowHeaders sourceLabel candles fromTs toTs

/-- The headers of a mixed page. -/
def computeXdataHeadersMixed (candles : List OhlcvRow) (source : String)
    (fromTs toTs : Option ℤ) : Headers :=
  rowHeaders source candles fromTs toTs

/-- `int(d.timestamp())`. -/
def Zones.epoch (z : Zones) (d : AwareDatetime) : ℤ := (z.instant d).tdiv 1000000

section Producers

variable (z : Zones)

/-- The headers of a backtest: of the requested window, from the first candle to the last one. -/
def computeXdataHeadersBacktest (candles : List Candle) (source : String)
    (start end_ : AwareDatetime) : Headers :=
  let expectedMinutes := max 0 (z.sub end_ start / minuteMicros)
  match candles with
  | [] => xDataHeaders source (z.epoch start) (z.epoch end_) expectedMinutes 0
  | first :: more =>
      let gaps := ((first :: more).zip more).map fun p =>
        (z.sub p.2.timestamp p.1.timestamp).tdiv 1000000
      xDataHeaders source (z.epoch first.timestamp)
        (z.epoch (more.getLastD first).timestamp + 60)
        (max 0 (expectedMinutes - (first :: more).length)) (max 0 (largest gaps - 60))

/-- What a read-through has done. -/
structure ReadThroughStats where
  requested : ℤ
  filled : ℤ
  repairStatus : String

structure LastRepair where
  filled : ℤ
  symbol : Option String

structure DataPolicy where
  primarySource : String

def sourceForHeader (rawSource : String) : Option DataPolicy → String
  | none => rawSource
  | some policy =>
      if rawSource = "primary" ∧ policy.primarySource = "ostium_recorded" then "ostium_recorded"
      else rawSource

/-- What the headers of a range depend on besides its candles. -/
structure P5Context where
  symbol : String
  source : String
  cutoverTs : Option ℤ
  readThroughStats : Option ReadThroughStats
  lastRepair : LastRepair
  policy : Option DataPolicy

/-- The headers on repairs. -/
def P5Context.repairHeaders (context : P5Context) : Headers :=
  let last := context.lastRepair
  let repair : String × ℤ × ℤ :=
    match context.readThroughStats with
    | some stats => (stats.repairStatus, stats.filled, stats.requested)
    | none =>
        (if 0 < last.filled ∧ last.symbol = some context.symbol then "applied" else "none",
          last.filled, last.filled)
  [("X-Data-Repair", repair.1), ("X-Data-Repair-Filled", toString repair.2.1),
    ("X-Data-Repair-Requested", toString repair.2.2)]

/-- The headers that are not always there. -/
def P5Context.sourceHeaders (context : P5Context) : Headers :=
  (match context.cutoverTs with
    | some cutover =>
        if context.source = "mixed" then [("X-Data-Cutover-Ts", toString cutover)] else []
    | none => []) ++
  (match context.policy with
    | some policy =>
        if policy.primarySource = "ostium_recorded" then
          [("X-Data-Primary-Source", "ostium_recorded")]
        else []
    | none => [])

/-- The headers of a range: of the requested window, as the validator reports on it. -/
def buildP5Headers (candles : List Candle) (start end_ : AwareDatetime) (context : P5Context) :
    Option Headers :=
  (GapValidator.validate z candles start end_).map fun report =>
    let maxGapS := ((report.gaps.map fun g => g.count * 60).max?).getD 0
    xDataHeaders (sourceForHeader context.source context.policy) (z.epoch start) (z.epoch end_)
      report.missingCount maxGapS ++ (context.repairHeaders ++ context.sourceHeaders)

end Producers

/-! ### What the gate lets pass -/

namespace QualityGate

variable {now : ℤ} {headers rest : Headers} {candlesCount : ℕ} {limits : Limits}

/-- The gate lets pass what has the headers and exceeds no limit. -/
theorem status_ok_iff : (evaluateQualityGate now headers candlesCount limits).status = .ok ↔
    0 ≤ parseInt headers "x-data-coverage-from" (-1) ∧
      0 ≤ parseInt headers "x-data-coverage-to" (-1) ∧
      parseInt headers "x-data-missing-minutes" 0 ≤ limits.allowed ∧
      parseInt headers "x-data-max-gap-s" 0 ≤ limits.maxGapS ∧
      limits.minCompleteness ≤ completenessOf (parseInt headers "x-data-coverage-from" (-1))
        (parseInt headers "x-data-coverage-to" (-1))
        (parseInt headers "x-data-missing-minutes" 0) := by
  rw [evaluateQualityGate]
  dsimp only
  split
  · rename_i hbad
    refine iff_of_false (fun h => by cases h) ?_
    rintro ⟨hfrom, hto, -⟩
    omega
  · rename_i hgood
    split
    · rename_i hgaps
      refine iff_of_false (fun h => by cases h) ?_
      rintro ⟨-, -, hmissing, -⟩
      omega
    · rename_i hgaps
      split
      · rename_i hgap
        refine iff_of_false (fun h => by cases h) ?_
        rintro ⟨-, -, -, hle, -⟩
        omega
      · rename_i hgap
        split
        · rename_i hlow
          refine iff_of_false (fun h => by cases h) ?_
          rintro ⟨-, -, -, -, hle⟩
          exact absurd hlow (not_lt.2 hle)
        · rename_i hlow
          exact iff_of_true rfl ⟨by omega, by omega, by omega, by omega, not_lt.1 hlow⟩

variable {source : String} {coverageFrom coverageTo missingMinutes maxGapS : ℤ}

theorem parseInt_cons_self {key name : String} {n default : ℤ}
    (h : Text.lower name = Text.lower key) :
    parseInt ((name, toString n) :: headers) key default = n := by
  rw [parseInt, List.find?_cons_of_pos (by simpa using h)]
  dsimp only
  rw [Text.toInt?_toString_int, Option.getD_some]

theorem parseInt_cons_of_ne {key name value : String} {default : ℤ}
    (h : Text.lower name ≠ Text.lower key) :
    parseInt ((name, value) :: headers) key default = parseInt headers key default := by
  rw [parseInt, List.find?_cons_of_neg (by simpa using h), parseInt]

/-- The gate reads what the producers write. -/
theorem parseInt_xDataHeaders (default : ℤ) :
    let hs := xDataHeaders source coverageFrom coverageTo missingMinutes maxGapS ++ rest
    parseInt hs "x-data-coverage-from" default = coverageFrom ∧
      parseInt hs "x-data-coverage-to" default = coverageTo ∧
      parseInt hs "x-data-missing-minutes" default = missingMinutes ∧
      parseInt hs "x-data-max-gap-s" default = maxGapS := by
  have hne : ∀ {name key : String}, Text.lower name ≠ Text.lower key →
      ∀ {value : String} {hs : Headers}, parseInt ((name, value) :: hs) key default =
        parseInt hs key default := fun h => parseInt_cons_of_ne h
  refine ⟨?_, ?_, ?_, ?_⟩
  · exact (hne (by decide)).trans (parseInt_cons_self (by decide))
  · exact (hne (by decide)).trans ((hne (by decide)).trans
      (parseInt_cons_self (by decide)))
  · exact (hne (by decide)).trans ((hne (by decide)).trans
      ((hne (by decide)).trans (parseInt_cons_self (by decide))))
  · exact (hne (by decide)).trans ((hne (by decide)).trans
      ((hne (by decide)).trans ((hne (by decide)).trans
        (parseInt_cons_self (by decide)))))

end QualityGate

/-! ### Requests -/

/-- A request, by its producer: the window, and the candles that are returned. -/
inductive DataRequest
  | p5 (candles : List Candle) (start end_ : AwareDatetime) (context : P5Context)
  | duckdb (sourceLabel : String) (candles : List OhlcvRow) (fromTs toTs : ℤ)
  | mixed (candles : List OhlcvRow) (source : String) (fromTs toTs : ℤ)
  | backtest (candles : List Candle) (source : String) (start end_ : AwareDatetime)

namespace DataRequest

open QualityGate
open GridWindow

/-- What a minute is counted in. -/
def minute : DataRequest → ℤ
  | p5 .. | backtest .. => minuteMicros
  | duckdb .. | mixed .. => 60

variable (z : Zones)

/-- The start of the window. -/
def lo : DataRequest → ℤ
  | p5 _ start _ _ | backtest _ _ start _ => z.instant start
  | duckdb _ _ fromTs _ | mixed _ _ fromTs _ => fromTs

/-- The end of the window. -/
def hi : DataRequest → ℤ
  | p5 _ _ end_ _ | backtest _ _ _ end_ => z.instant end_
  | duckdb _ _ _ toTs | mixed _ _ _ toTs => toTs

/-- The times of the candles that are returned. -/
def times : DataRequest → List ℤ
  | p5 candles _ _ _ | backtest candles _ _ _ => candles.map (Candle.instant z)
  | duckdb _ candles _ _ | mixed candles _ _ _ => candles.map OhlcvRow.ts

/-- The headers of the answer; the validator may raise. -/
def headers : DataRequest → Option Headers
  | p5 candles start end_ context => buildP5Headers z candles start end_ context
  | duckdb sourceLabel candles fromTs toTs =>
      some (computeXdataHeaders sourceLabel candles fromTs toTs)
  | mixed candles source fromTs toTs =>
      some (computeXdataHeadersMixed candles source fromTs toTs)
  | backtest candles source start end_ =>
      some (computeXdataHeadersBacktest z candles source start end_)

/-- How many minutes of the window have no candle. -/
noncomputable def missingMinutes (r : DataRequest) : ℕ := missing r.minute (r.lo z) (r.hi z) (r.times z)

/-- The candles that are returned are those of different minutes of the window, in order. -/
structure Returned (r : DataRequest) : Prop where
  lt : r.lo z < r.hi z
  present : Present r.minute (r.lo z) (r.hi z) (r.times z)

/-- An answer that the gate lets pass has a candle, and lacks no more minutes than may be missing. -/
def Sound (r : DataRequest) : Prop :=
  ∀ hs, r.headers z = some hs → ∀ now limits,
    (evaluateQualityGate now hs (r.times z).length limits).status = .ok →
      r.times z ≠ [] ∧ (r.missingMinutes z : ℤ) ≤ limits.allowed

/-- Every minute of the window has a candle. -/
def Full (r : DataRequest) : Prop :=
  ∀ m, r.minute ∣ m → r.lo z ≤ m → m < r.hi z → m ∈ r.times z

/-- Rows cover a window: the first minute and the last one are there. -/
def RowsCover (candles : List OhlcvRow) (fromTs toTs : ℤ) : Prop :=
  match candles.map OhlcvRow.ts with
  | [] => fromTs < 0
  | first :: more => first < 0 ∨ (first < fromTs + 60 ∧ toTs ≤ more.getLastD first + 60)

/-- The headers speak of the requested window, or the gate takes them for absent.  Rows have to be
there at both ends of the window.  For candles the clock has to count as many minutes as the window
has, unless none is missing. -/
def Covers (r : DataRequest) : Prop :=
  match r with
  | p5 candles start end_ _ =>
      (GapValidator.validate z candles start end_).isNone ∨ z.epoch start < 0 ∨
        (candles ≠ [] ∧ (((points r.minute (r.lo z) (r.hi z)).card : ℤ) ≤ minutesBetween z start end_
          ∨ r.Full z))
  | duckdb _ candles fromTs toTs | mixed candles _ fromTs toTs => RowsCover candles fromTs toTs
  | backtest candles _ start end_ =>
      match candles with
      | [] => z.epoch start < 0
      | first :: _ => z.epoch first.timestamp < 0 ∨
          ((points r.minute (r.lo z) (r.hi z)).card : ℤ) ≤ z.sub end_ start / minuteMicros ∨
            r.Full z

variable {z} {r : DataRequest}

theorem minute_pos (r : DataRequest) : 0 < r.minute := by
  cases r with
  | p5 => exact (by decide : 0 < minuteMicros)
  | duckdb => exact (by decide : (0 : ℤ) < 60)
  | mixed => exact (by decide : (0 : ℤ) < 60)
  | backtest => exact (by decide : 0 < minuteMicros)

theorem full_iff : r.Full z ↔ r.missingMinutes z = 0 :=
  (missing_eq_zero_iff r.minute_pos).symm

/-- The missing minutes and the candles make up the window. -/
theorem Returned.missing_add_length (h : r.Returned z) :
    r.missingMinutes z + (r.times z).length = (points r.minute (r.lo z) (r.hi z)).card :=
  GridWindow.missing_add_length r.minute_pos h.present

/-- Whatever the limits are, what passes is sound just if the headers say that nothing is covered,
or there is a candle and the headers do not say less than is missing. -/
theorem sound_iff_of_headers {source : String} {coverageFrom coverageTo missing maxGapS : ℤ}
    {rest : Headers}
    (h : r.headers z = some
      (xDataHeaders source coverageFrom coverageTo missing maxGapS ++ rest)) :
    r.Sound z ↔ coverageFrom < 0 ∨ coverageTo < 0 ∨
      (r.times z ≠ [] ∧ (r.missingMinutes z : ℤ) ≤ missing) := by
  obtain ⟨hfrom, hto, hmissing, hgap⟩ :
      let hs := xDataHeaders source coverageFrom coverageTo missing maxGapS ++ rest
      parseInt hs "x-data-coverage-from" (-1) = coverageFrom ∧
        parseInt hs "x-data-coverage-to" (-1) = coverageTo ∧
        parseInt hs "x-data-missing-minutes" 0 = missing ∧
        parseInt hs "x-data-max-gap-s" 0 = maxGapS :=
    ⟨(parseInt_xDataHeaders (-1)).1, (parseInt_xDataHeaders (-1)).2.1,
      (parseInt_xDataHeaders 0).2.2.1, (parseInt_xDataHeaders 0).2.2.2⟩
  constructor
  · intro hsound
    by_contra hnot
    rw [not_or, not_or, not_lt, not_lt] at hnot
    -- limits that the headers just meet
    have hpass := hsound _ h 0 ⟨0, completenessOf coverageFrom coverageTo missing, maxGapS,
      some missing, 0⟩
    rw [status_ok_iff, hfrom, hto, hmissing, hgap] at hpass
    exact hnot.2.2 (hpass ⟨hnot.1, hnot.2.1, le_rfl, le_rfl, le_rfl⟩)
  · rintro hcovers hs hhs now limits hpass
    obtain rfl := Option.some.inj (h.symm.trans hhs)
    rw [status_ok_iff, hfrom, hto, hmissing] at hpass
    obtain ⟨hfrom, hto, hallowed, -⟩ := hpass
    rcases hcovers with hlt | hlt | ⟨hne, hle⟩
    · exact absurd hfrom (not_le.2 hlt)
    · exact absurd hto (not_le.2 hlt)
    · exact ⟨hne, hle.trans hallowed⟩

theorem sound_iff_of_xDataHeaders {source : String}
    {coverageFrom coverageTo missing maxGapS : ℤ}
    (h : r.headers z = some (xDataHeaders source coverageFrom coverageTo missing maxGapS)) :
    r.Sound z ↔ coverageFrom < 0 ∨ coverageTo < 0 ∨
      (r.times z ≠ [] ∧ (r.missingMinutes z : ℤ) ≤ missing) :=
  sound_iff_of_headers (h.trans (congrArg some (List.append_nil _).symm))

theorem epoch_mono {a b : AwareDatetime} (h : z.instant a ≤ z.instant b) :
    z.epoch a ≤ z.epoch b :=
  Int.tdiv_le_tdiv (by decide) h

/-! ### Rows -/

/-- The headers for rows make what passes sound just if the rows cover the window. -/
theorem rows_sound_iff {source : String} {candles : List OhlcvRow} {fromTs toTs : ℤ}
    (hheaders : r.headers z = some (rowHeaders source candles (some fromTs) (some toTs)))
    (hminute : r.minute = 60) (hlo : r.lo z = fromTs) (hhi : r.hi z = toTs)
    (htimes : r.times z = candles.map OhlcvRow.ts) (h : r.Returned z) :
    r.Sound z ↔ RowsCover candles fromTs toTs := by
  have hlt := h.lt
  have hpresent := h.present
  rw [hlo, hhi] at hlt
  rw [hminute, hlo, hhi, htimes] at hpresent
  rw [rowHeaders] at hheaders
  rw [RowsCover]
  cases hts : candles.map OhlcvRow.ts with
  | nil =>
      rw [hts] at hheaders htimes
      rw [sound_iff_of_xDataHeaders hheaders, htimes]
      simp only [Option.getD_some, ne_eq, not_true_eq_false, false_and, or_false]
      omega
  | cons first more =>
      rw [hts] at hheaders htimes hpresent
      rw [sound_iff_of_xDataHeaders hheaders]
      have hmissing : r.missingMinutes z = missing 60 fromTs toTs (first :: more) := by
        rw [missingMinutes, hminute, hlo, hhi, htimes]
      have hlast := le_getLast (hpresent.sorted.imp le_of_lt) first List.mem_cons_self
      have hspan : max 0 ((more.getLastD first + 60 - first) / 60) =
          (more.getLastD first + 60 - first) / 60 := by
        omega
      rw [hmissing, htimes, hspan, missing_le_iff (by decide) hpresent]
      constructor
      · rintro (hneg | hneg | ⟨-, hends⟩)
        · exact Or.inl hneg
        · exact Or.inl (by omega)
        · exact Or.inr hends
      · rintro (hneg | hends)
        · exact Or.inl hneg
        · exact Or.inr (Or.inr ⟨List.cons_ne_nil _ _, hends⟩)

/-! ### Candles -/

/-- What is said to be expected, less the candles, is not less than what is missing just if as many
minutes are expected as the window has, or none is missing. -/
theorem Returned.missing_le_iff (h : r.Returned z) (expected : ℤ) :
    (r.missingMinutes z : ℤ) ≤ max 0 (expected - (r.times z).length) ↔
      ((points r.minute (r.lo z) (r.hi z)).card : ℤ) ≤ expected ∨ r.Full z := by
  have hadd := h.missing_add_length
  rw [full_iff]
  omega

theorem p5_sound_iff {candles : List Candle} {start end_ : AwareDatetime} {context : P5Context}
    (h : (p5 candles start end_ context).Returned z) :
    (p5 candles start end_ context).Sound z ↔ (p5 candles start end_ context).Covers z := by
  have hepoch : z.epoch start ≤ z.epoch end_ := epoch_mono h.lt.le
  rw [Covers]
  cases hreport : GapValidator.validate z candles start end_ with
  | none =>
      -- there are no headers
      refine iff_of_true (fun hs hhs => ?_) (Or.inl rfl)
      rw [headers, buildP5Headers, hreport] at hhs
      cases hhs
  | some report =>
      have hheaders : (p5 candles start end_ context).headers z =
          buildP5Headers z candles start end_ context := rfl
      rw [buildP5Headers, hreport, Option.map_some] at hheaders
      rw [sound_iff_of_headers hheaders]
      cases candles with
      | nil =>
          constructor
          · rintro (hneg | hneg | ⟨hne, -⟩)
            · exact Or.inr (Or.inl hneg)
            · exact Or.inr (Or.inl (hepoch.trans_lt hneg))
            · exact absurd rfl hne
          · rintro (hnone | hneg | ⟨hne, -⟩)
            · cases hnone
            · exact Or.inl hneg
            · exact absurd rfl hne
      | cons first more =>
          obtain ⟨gaps, -, rfl⟩ := Option.map_eq_some_iff.1 hreport
          have hmissing := h.missing_le_iff (minutesBetween z start end_)
          rw [show ((p5 (first :: more) start end_ context).times z).length =
            (first :: more).length from List.length_map ..] at hmissing
          constructor
          · rintro (hneg | hneg | ⟨-, hle⟩)
            · exact Or.inr (Or.inl hneg)
            · exact Or.inr (Or.inl (hepoch.trans_lt hneg))
            · exact Or.inr (Or.inr ⟨List.cons_ne_nil _ _, hmissing.1 hle⟩)
          · rintro (hnone | hneg | ⟨-, hcovers⟩)
            · cases hnone
            · exact Or.inl hneg
            · exact Or.inr (Or.inr ⟨List.cons_ne_nil _ _, hmissing.2 hcovers⟩)

theorem backtest_sound_iff {candles : List Candle} {source : String} {start end_ : AwareDatetime}
    (h : (backtest candles source start end_).Returned z) :
    (backtest candles source start end_).Sound z ↔
      (backtest candles source start end_).Covers z := by
  cases candles with
  | nil =>
      have hepoch : z.epoch start ≤ z.epoch end_ := epoch_mono h.lt.le
      have hheaders : (backtest [] source start end_).headers z =
          some (computeXdataHeadersBacktest z [] source start end_) := rfl
      rw [computeXdataHeadersBacktest] at hheaders
      rw [sound_iff_of_xDataHeaders hheaders]
      constructor
      · rintro (hneg | hneg | ⟨hne, -⟩)
        · exact hneg
        · exact hepoch.trans_lt hneg
        · exact absurd rfl hne
      · exact fun hneg => Or.inl hneg
  | cons first more =>
      have hepoch : z.epoch first.timestamp ≤ z.epoch (more.getLastD first).timestamp := by
        have hlast := le_getLast (h.present.sorted.imp le_of_lt) _ List.mem_cons_self
        exact epoch_mono (hlast.trans_eq List.getLastD_map)
      have hmissing := h.missing_le_iff (max 0 (z.sub end_ start / minuteMicros))
      have hadd := h.missing_add_length
      have hlength : ((backtest (first :: more) source start end_).times z).length =
          (first :: more).length := List.length_map ..
      rw [hlength] at hmissing hadd
      have hpos := Nat.succ_le_of_lt (List.length_pos_iff.2 (List.cons_ne_nil first more))
      have hheaders : (backtest (first :: more) source start end_).headers z =
          some (computeXdataHeadersBacktest z (first :: more) source start end_) := rfl
      rw [computeXdataHeadersBacktest] at hheaders
      rw [sound_iff_of_xDataHeaders hheaders]
      constructor
      · rintro (hneg | hneg | ⟨-, hle⟩)
        · exact Or.inl hneg
        · exact Or.inl (by omega)
        · refine Or.inr ((hmissing.1 hle).imp_left fun hcard => ?_)
          omega
      · rintro (hneg | hcovers)
        · exact Or.inl hneg
        · refine Or.inr (Or.inr ⟨List.cons_ne_nil _ _, hmissing.2 (hcovers.imp_left ?_)⟩)
          exact fun hcard => hcard.trans (le_max_right _ _)

/-- What the gate lets pass, whatever its limits are, has a candle and lacks no more minutes than
may be missing just if the headers speak of the requested window. -/
theorem sound_iff (h : r.Returned z) : r.Sound z ↔ r.Covers z := by
  cases r with
  | p5 candles start end_ context => exact p5_sound_iff h
  | duckdb sourceLabel candles fromTs toTs => exact rows_sound_iff rfl rfl rfl rfl rfl h
  | mixed candles source fromTs toTs => exact rows_sound_iff rfl rfl rfl rfl rfl h
  | backtest candles source start end_ => exact backtest_sound_iff h

/-! ### What the stores return -/

/-- A parquet query returns minutes of its window, in order. -/
theorem returned_queryOhlcv (z : Zones) (sourceLabel : String) {parquet : List OhlcvRow}
    (hnodup : (parquet.map OhlcvRow.ts).Nodup) (hminute : ∀ r ∈ parquet, 60 ∣ r.ts)
    {fromTs toTs : ℤ} (hlt : fromTs < toTs) (limit : ℕ) :
    (duckdb sourceLabel (MixedOhlcv.queryOhlcv parquet fromTs toTs limit none).candles
      fromTs toTs).Returned z := by
  have hmem : ∀ r ∈ (MixedOhlcv.queryOhlcv parquet fromTs toTs limit none).candles,
      r ∈ parquet ∧ fromTs ≤ r.ts ∧ r.ts < toTs := by
    intro r hr
    obtain ⟨hr, hwhere⟩ := List.mem_filter.1 (MixedOhlcv.mem_sortByTs.1 (List.mem_of_mem_take hr))
    obtain ⟨hfrom, hto⟩ := Bool.and_eq_true_iff.1 hwhere
    exact ⟨hr, of_decide_eq_true hfrom, of_decide_eq_true hto⟩
  refine ⟨hlt, ?_, fun t ht => ?_, fun t ht => ?_, fun t ht => ?_⟩
  · have hsorted := MixedOhlcv.sorted_sortByTs (hnodup.sublist ((List.filter_sublist
      (p := fun r => MixedOhlcv.queryWhere fromTs toTs none r.ts)).map OhlcvRow.ts))
    exact List.pairwise_map.2 (hsorted.sublist (List.take_sublist _ _))
  · obtain ⟨r, hr, rfl⟩ := List.mem_map.1 ht
    exact hminute r (hmem r hr).1
  · obtain ⟨r, hr, rfl⟩ := List.mem_map.1 ht
    exact (hmem r hr).2.1
  · obtain ⟨r, hr, rfl⟩ := List.mem_map.1 ht
    exact (hmem r hr).2.2

/-- So does a range of the candle store. -/
theorem returned_readRange {zones : Zone → Prop} (hz : z.MonthsKeep) {files : CandleStore.Files}
    (hfiles : CandleStore.Inv z zones files)
    (hminute : ∀ month, ∀ c ∈ CandleStore.readCsvFile z files month, minuteMicros ∣ c.instant z)
    {start end_ : AwareDatetime} (hreader : zones start.zone)
    (hend : z.lt (CandleStore.lastMonth start) end_ = false)
    (hlt : z.instant start < z.instant end_) (validateGaps : Bool) :
    ∃ range, CandleStore.readRange z files start end_ validateGaps = some range ∧
      (∀ context, (p5 range.candles start end_ context).Returned z) ∧
      ∀ source, (backtest range.candles source start end_).Returned z := by
  obtain ⟨clock, -⟩ := Candle.FileClock.exists_of_zone hz hreader
  obtain ⟨range, hrange, hsorted, hmem⟩ :=
    CandleStore.readRange_spec_by (k := clock) hz hfiles hreader hend validateGaps
  have hspec : ∀ t ∈ range.candles.map (Candle.instant z),
      minuteMicros ∣ t ∧ z.instant start ≤ t ∧ t < z.instant end_ := by
    intro t ht
    obtain ⟨c, hc, rfl⟩ := List.mem_map.1 ht
    obtain ⟨hle, hlt, hseries⟩ := (hmem _ _).1 (List.mem_map.2 ⟨c, hc, rfl⟩)
    obtain ⟨month, d, hd, hentry⟩ := (CandleStore.seriesBy_eq_some_iff hfiles).1 hseries
    have hinst : d.instant z = c.instant z := congrArg Prod.fst hentry
    exact ⟨hinst ▸ hminute month d hd, hle, hlt⟩
  have hpresent : Present minuteMicros (z.instant start) (z.instant end_)
      (range.candles.map (Candle.instant z)) :=
    ⟨hsorted, fun t ht => (hspec t ht).1, fun t ht => (hspec t ht).2.1,
      fun t ht => (hspec t ht).2.2⟩
  exact ⟨range, hrange, fun _ => ⟨hlt, hpresent⟩, fun _ => ⟨hlt, hpresent⟩⟩

/-! ### An hour without a candle, and an hour that is shown twice -/

def rowAt (ts : ℤ) : OhlcvRow := ⟨ts, 1, 1, 1, 1, 0⟩

/-- Two minutes are asked for, and both are there. -/
theorem sound_two_minutes : (duckdb "dukascopy" (MixedOhlcv.queryOhlcv
    [rowAt 1705320060, rowAt 1705320000] (some 1705320000) (some 1705320120) 1000 none).candles
      1705320000 1705320120).Sound MixedOhlcv.utcOnly := by
  refine (sound_iff (returned_queryOhlcv _ "dukascopy" ?_ ?_ ?_ 1000)).2 ?_
  · decide
  · decide
  · decide
  · exact Or.inr (by decide)

/-- An hour is asked for on the day after the only row. -/
def emptyHour : DataRequest := duckdb "dukascopy" (MixedOhlcv.queryOhlcv [rowAt 1705320000]
  (some 1705406400) (some 1705410000) 1000 none).candles 1705406400 1705410000

/-- Half past one in the night of a clock change, for the first time and again. -/
def halfPastOne (fold : Bool) : AwareDatetime :=
  ⟨.newYork, 1730597400000000, fold, by decide +kernel, by decide +kernel⟩

/-- The hour between is asked for, and only its first candle is there. -/
def repeatedHour : DataRequest :=
  p5 [CandleStore.flat (halfPastOne false) 1] (halfPastOne false) (halfPastOne true)
    ⟨"EURUSD", "primary", none, none, ⟨0, none⟩, none⟩

/-- The gate lets both pass with its usual limits: an hour without a candle, and an hour that lacks
fifty-nine. -/
theorem passes_empty :
    (emptyHour.Returned MixedOhlcv.utcOnly ∧ emptyHour.times MixedOhlcv.utcOnly = [] ∧
      ¬ emptyHour.Sound MixedOhlcv.utcOnly) ∧
      repeatedHour.Returned Zones.fallBack ∧ repeatedHour.missingMinutes Zones.fallBack = 59 ∧
        ¬ repeatedHour.Sound Zones.fallBack := by
  have hempty : emptyHour.Returned MixedOhlcv.utcOnly :=
    returned_queryOhlcv _ "dukascopy" (by decide) (by decide) (by decide) 1000
  have hreturned : repeatedHour.Returned Zones.fallBack :=
    ⟨by decide, by decide, by decide, by decide, by decide⟩
  have hmissing : repeatedHour.missingMinutes Zones.fallBack = 59 := by decide
  refine ⟨⟨hempty, by decide, fun hsound => ?_⟩, hreturned, hmissing, fun hsound => ?_⟩
  · have hcover : RowsCover [] 1705406400 1705410000 :=
      (rows_sound_iff rfl rfl rfl rfl rfl hempty).1 hsound
    exact absurd (show (1705406400 : ℤ) < 0 from hcover) (by decide)
  · rcases (p5_sound_iff hreturned).1 hsound with hnone | hneg | ⟨-, hcard | hfull⟩
    · exact absurd hnone (by decide +kernel)
    · exact absurd hneg (by decide)
    · -- the clock counts no minute between the two
      have hclock : minutesBetween Zones.fallBack (halfPastOne false) (halfPastOne true) = 0 := by
        decide
      have hle : ((points repeatedHour.minute (repeatedHour.lo Zones.fallBack)
          (repeatedHour.hi Zones.fallBack)).card : ℤ) ≤ 0 := hclock ▸ hcard
      have hsum := hreturned.missing_add_length
      omega
    · have hzero : repeatedHour.missingMinutes Zones.fallBack = 0 := full_iff.1 hfull
      omega

end DataRequest
