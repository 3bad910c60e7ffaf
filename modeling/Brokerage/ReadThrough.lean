/-
**Filling the gaps of a response.**

A range of stored candles with a few missing minutes can be completed before it is served: each gap
the validator reports is asked of a provider, and what comes back is filtered and merged with the
stored candles.  Whether the result is complete is not looked up in it.  It is inferred from two
counts, the minutes that the validator found missing and the candles that were filled in.

The validator counts the minutes between the ends of the range, and not the minutes in it.  A range
of eighty seconds has one minute by that count, but two minutes may start in it.

Main definitions:

* `ReadThrough.filterValidCandles`, `ReadThrough.mergeCandlesByTs` — what becomes of the candles of a
  provider;
* `ReadThrough.maybeFillGapsResponseOnly` — the service;
* `ReadThrough.missingIn` — how many minutes that start in a window have no candle;
* `ReadThrough.Filled`, `ReadThrough.Honest` — what the service should answer.

Main results:

* `ReadThrough.gapsFrom_spec`, `ReadThrough.Listed.gaps_spec` — gaps lie apart from each other and
  from the candles;
* `ReadThrough.Listed.filled_iff` — when a filled range is what it says it is;
* `ReadThrough.honest_iff` — exactly when the service answers as it should;
* `ReadThrough.eighty_seconds` — a range that is completed and reported as incomplete.
-/

import Brokerage.GapValidator
import Brokerage.QualityGate
import Brokerage.StableSort

set_option relaxedAutoImplicit false
set_option autoImplicit false

namespace ReadThrough

variable (z : Zones)

/-! ### The service -/

/-- What a provider does when it is asked for a gap. -/
inductive ProviderAnswer
  | candles (cs : List Candle)
  | timeout
  /-- An exception with a text. -/
  | raises (text : String)
  deriving DecidableEq

structure ReadThroughStats where
  requested : ℤ
  filled : ℤ
  failedReason : Option String := none
  repairStatus : String := "none"
  deriving DecidableEq

/-- A candle has to be at the start of a minute. -/
def validateCandleTs (ts : ℤ) : Bool := ts % 60 = 0

/-- The candles of a gap, each second once. -/
def validCandles (startTs endTs : ℤ) : List Candle → List ℤ → List Candle
  | [], _ => []
  | c :: cs, seen =>
      if ¬ validateCandleTs (c.epoch z) then validCandles startTs endTs cs seen
      else if c.epoch z < startTs ∨ endTs ≤ c.epoch z then validCandles startTs endTs cs seen
      else if c.epoch z ∈ seen then validCandles startTs endTs cs seen
      else c :: validCandles startTs endTs cs (c.epoch z :: seen)

def filterValidCandles (cs : List Candle) (startTs endTs : ℤ) : List Candle :=
  StableSort.sortBy (Candle.instant z) (validCandles z startTs endTs cs [])

/-- The candles of both lists by second, those of the first one before those of the second one. -/
def mergeCandlesByTs (primary filled : List Candle) : List Candle :=
  let byTs := primary.foldl (fun d c => d.set (c.epoch z) c) Dict.empty
  let byTs := filled.foldl
    (fun d c => if d.contains (c.epoch z) then d else d.set (c.epoch z) c) byTs
  byTs.sortedKeys.filterMap byTs.get?

/-- The candles for the gaps, or the reason of the first fetch that failed. -/
def fetchGaps (fetchOhlcv : Gap → ProviderAnswer) : List Gap → Except String (List Candle)
  | [] => .ok []
  | g :: gs =>
      match fetchOhlcv g with
      | .timeout => .error "timeout"
      | .raises text => .error (String.ofList (text.toList.take 100))
      | .candles cs =>
          (fetchGaps fetchOhlcv gs).map
            (filterValidCandles z cs (z.epoch g.start) (z.epoch g.end_) ++ ·)

/-- The range with its gaps filled, as far as the provider can; nothing is answered where the
validator raises.  The candles of a provider get the symbol of the range, which is not part of a
candle here. -/
def maybeFillGapsResponseOnly (r : CandleRange) (primaryProvider : Option (Gap → ProviderAnswer))
    (enabled : Bool) (maxMissing : ℤ) : Option (CandleRange × ReadThroughStats) :=
  let stats : ReadThroughStats := { requested := 0, filled := 0 }
  if ¬ enabled then some (r, stats)
  else
    match GapValidator.validate z r.candles r.start r.end_ with
    | none => none
    | some report =>
        if report.missingCount = 0 then some (r, stats)
        else if report.missingCount > maxMissing then some (r, stats)
        else
          let stats := { stats with requested := report.missingCount }
          match primaryProvider with
          | none =>
              some (r, { stats with
                failedReason := some "no_provider"
                repairStatus := "read_through_failed" })
          | some fetchOhlcv =>
              match fetchGaps z fetchOhlcv report.gaps with
              | .error reason =>
                  some (r, { stats with
                    failedReason := some reason
                    repairStatus := "read_through_failed" })
              | .ok filledAll =>
                  let filled : ℤ := filledAll.length
                  let merged := mergeCandlesByTs z r.candles filledAll
                  some ({ r with
                      candles := merged
                      isComplete := stats.requested - filled = 0
                      missingCount := max 0 (stats.requested - filled) },
                    { stats with
                      filled := filled
                      repairStatus := if 0 < filled then "read_through" else "none" })

/-! ### What it should answer -/

/-- The numbers of the minutes that start in a window. -/
noncomputable def minutesIn (start end_ : AwareDatetime) : Finset ℤ :=
  Finset.Ico (-(-z.instant start / minuteMicros)) (-(-z.instant end_ / minuteMicros))

/-- The numbers of the minutes that start in a window and have no candle. -/
noncomputable def missingMinutesIn (start end_ : AwareDatetime) (cs : List Candle) : Finset ℤ :=
  (minutesIn z start end_).filter fun m => m * minuteMicros ∉ cs.map (Candle.instant z)

/-- How many minutes that start in a window have no candle. -/
noncomputable def missingIn (start end_ : AwareDatetime) (cs : List Candle) : ℕ :=
  (missingMinutesIn z start end_ cs).card

/-- A candle at the start of a minute in one of some gaps. -/
def InGaps (gaps : List Gap) (c : Candle) : Prop :=
  minuteMicros ∣ c.instant z ∧
    ∃ g ∈ gaps, z.instant g.start ≤ c.instant z ∧ c.instant z < z.instant g.end_

/-- A range with gaps filled: the candles are in order, those of before are kept, the others are in
the gaps, and it is known how many are missing. -/
structure Filled (gaps : List Gap) (r r' : CandleRange) : Prop where
  start_eq : r'.start = r.start
  end_eq : r'.end_ = r.end_
  ascending : (r'.candles.map (Candle.instant z)).Pairwise (· < ·)
  kept : ∀ c ∈ r.candles, c ∈ r'.candles
  added : ∀ c ∈ r'.candles, c ∈ r.candles ∨ InGaps z gaps c
  complete : r'.isComplete = true ↔ Complete z r.start r.end_ r'.candles
  missing : r'.missingCount = missingIn z r.start r.end_ r'.candles

/-- There is nothing to fill, or too much, or nobody to ask, or an answer fails. -/
def Skipped (provider : Option (Gap → ProviderAnswer)) (maxMissing missing : ℤ) (gaps : List Gap) :
    Prop :=
  missing = 0 ∨ maxMissing < missing ∨
    ∀ fetchOhlcv ∈ provider, ∃ g ∈ gaps, ∀ cs, fetchOhlcv g ≠ .candles cs

/-- The answer is the range itself, if it is not to be filled, and else the range with its gaps
filled. -/
def Honest (r : CandleRange) (provider : Option (Gap → ProviderAnswer)) (enabled : Bool)
    (maxMissing : ℤ) : Prop :=
  ∃ r' stats, maybeFillGapsResponseOnly z r provider enabled maxMissing = some (r', stats) ∧
    if enabled then
      ∃ report, GapValidator.validate z r.candles r.start r.end_ = some report ∧
        (Skipped provider maxMissing report.missingCount report.gaps → r' = r) ∧
        (¬ Skipped provider maxMissing report.missingCount report.gaps → Filled z report.gaps r r')
    else r' = r

/-- The stored candles of a range: datetimes of UTC in the range, in the order of their seconds. -/
structure Listed (r : CandleRange) : Prop where
  lt : z.instant r.start < z.instant r.end_
  utc : ∀ c ∈ r.candles, c.timestamp.zone = .utc
  ascending : (r.candles.map (Candle.epoch z)).Pairwise (· < ·)
  start_le : ∀ c ∈ r.candles, z.instant r.start ≤ c.instant z
  lt_end : ∀ c ∈ r.candles, c.instant z < z.instant r.end_

/-! ### When it does -/

/-- The datetimes that the validator computes exist: the minute after each candle but the last one, the
minute before the end, and the minute after the last candle, if that is before it. -/
def DatetimesExist (r : CandleRange) : Prop :=
  ∀ last ∈ r.candles.getLast?,
    (∀ c ∈ r.candles.dropLast, (c.timestamp.add? minuteMicros).isSome) ∧
    ∃ expectedLast ∈ r.end_.add? (-minuteMicros),
      z.lt last.timestamp expectedLast → (last.timestamp.add? minuteMicros).isSome

/-- How many minutes the validator counts as missing. -/
def missingCount (r : CandleRange) : ℤ :=
  if r.candles = [] then minutesBetween z r.start r.end_
  else max 0 (minutesBetween z r.start r.end_ - r.candles.length)

/-- The minutes counted between the ends of a range are the stored candles and the minutes that start
in it and have none. -/
def CountsMinutes (r : CandleRange) : Prop :=
  minutesBetween z r.start r.end_ = r.candles.length + missingIn z r.start r.end_ r.candles

/-- Candles of the provider that pass the filter are really at minutes in the gaps. -/
def AnswersFit (fetchOhlcv : Gap → ProviderAnswer) (gaps : List Gap) : Prop :=
  ∀ g ∈ gaps, ∀ cs, fetchOhlcv g = .candles cs →
    ∀ c ∈ filterValidCandles z cs (z.epoch g.start) (z.epoch g.end_), InGaps z gaps c

/-- If the range is to be filled, then its minutes are counted right and the answers fit. -/
def Fillable (r : CandleRange) (provider : Option (Gap → ProviderAnswer)) (enabled : Bool)
    (maxMissing : ℤ) : Prop :=
  enabled = true → DatetimesExist z r ∧
    ∀ gaps, GapValidator.findGaps z r.candles r.start r.end_ = some gaps →
      ¬ Skipped provider maxMissing (missingCount z r) gaps →
      CountsMinutes z r ∧ ∀ fetchOhlcv ∈ provider, AnswersFit z fetchOhlcv gaps

variable {z}

/-! ### The gaps -/

/-- The gaps are in order between two instants, and the candles are outside of them: a candle before
a gap is at least a minute before it. -/
structure Apart (z : Zones) (cs : List Candle) (lo hi : ℤ) (gaps : List Gap) : Prop where
  ordered : gaps.Pairwise fun g g' => z.instant g.end_ ≤ z.instant g'.start
  apart : ∀ g ∈ gaps, ∀ c ∈ cs,
    c.instant z + minuteMicros ≤ z.instant g.start ∨ z.instant g.end_ ≤ c.instant z
  le_start : ∀ g ∈ gaps, lo ≤ z.instant g.start
  end_le : ∀ g ∈ gaps, z.instant g.end_ ≤ hi

theorem Apart.nil (cs : List Candle) (lo hi : ℤ) : Apart z cs lo hi [] :=
  ⟨List.Pairwise.nil, fun _ hg => absurd hg List.not_mem_nil, fun _ hg => absurd hg List.not_mem_nil,
    fun _ hg => absurd hg List.not_mem_nil⟩

/-- A gap that ends at a candle, before the gaps from that candle on. -/
theorem Apart.cons {cs : List Candle} {c : Candle} {lo hi : ℤ} {gaps : List Gap}
    (h : Apart z (c :: cs) (c.instant z + minuteMicros) hi gaps) {g : Gap}
    (hend : z.instant g.end_ = c.instant z) (hstart : lo ≤ z.instant g.start)
    (hlo : lo ≤ c.instant z + minuteMicros) (hhi : c.instant z ≤ hi)
    (hsorted : ∀ d ∈ cs, c.instant z ≤ d.instant z) : Apart z (c :: cs) lo hi (g :: gaps) where
  ordered := by
    refine List.pairwise_cons.2 ⟨fun g' hg' => ?_, h.ordered⟩
    have hle := h.le_start g' hg'
    rw [minuteMicros] at hle
    omega
  apart := by
    intro g' hg' d hd
    rcases List.mem_cons.1 hg' with rfl | hg'
    · right
      rw [hend]
      rcases List.mem_cons.1 hd with rfl | hd
      · exact le_rfl
      · exact hsorted d hd
    · exact h.apart g' hg' d hd
  le_start := by
    intro g' hg'
    rcases List.mem_cons.1 hg' with rfl | hg'
    · exact hstart
    · exact hlo.trans (h.le_start g' hg')
  end_le := by
    intro g' hg'
    rcases List.mem_cons.1 hg' with rfl | hg'
    · rw [hend]
      exact hhi
    · exact h.end_le g' hg'

/-- Gaps are apart from an earlier candle, too. -/
theorem Apart.earlier {cs : List Candle} {c : Candle} {lo hi : ℤ} {gaps : List Gap}
    (h : Apart z cs lo hi gaps) (hlo : c.instant z + minuteMicros ≤ lo) : Apart z (c :: cs) lo hi gaps where
  ordered := h.ordered
  apart := by
    intro g hg d hd
    rcases List.mem_cons.1 hd with rfl | hd
    · exact Or.inl (hlo.trans (h.le_start g hg))
    · exact h.apart g hg d hd
  le_start := h.le_start
  end_le := h.end_le

theorem instant_add? {d e : AwareDatetime} {duration : ℤ} (hd : d.zone = .utc)
    (h : d.add? duration = some e) : z.instant e = z.instant d + duration := by
  obtain ⟨hzone, hwall⟩ := AwareDatetime.add?_eq_some h
  rw [Zones.instant_utc (hzone.trans hd), Zones.instant_utc hd, hwall]

/-- The gap after the last candle. -/
theorem gapAfter_spec {last : Candle} {end_ : AwareDatetime} {gaps : List Gap}
    (hutc : last.timestamp.zone = .utc) (h : GapValidator.gapAfter z last end_ = some gaps) :
    Apart z [last] (last.instant z + minuteMicros) (z.instant end_) gaps := by
  have hsingle : ∀ gapStart, last.timestamp.add? minuteMicros = some gapStart →
      Apart z [last] (last.instant z + minuteMicros) (z.instant end_)
        [⟨gapStart, end_, minutesBetween z gapStart end_⟩] := by
    intro gapStart hadd
    have hstart : z.instant gapStart = last.instant z + minuteMicros := instant_add? hutc hadd
    refine ⟨List.pairwise_singleton _ _, fun g hg c hc => ?_, fun g hg => ?_, fun g hg => ?_⟩
    · rw [List.mem_singleton.1 hg, List.mem_singleton.1 hc]
      exact Or.inl hstart.ge
    · rw [List.mem_singleton.1 hg]
      exact hstart.ge
    · rw [List.mem_singleton.1 hg]
  rw [GapValidator.gapAfter] at h
  split at h
  · cases h
  · split at h
    · obtain ⟨gapStart, hadd, hgaps⟩ := Option.map_eq_some_iff.1 h
      split at hgaps
      · rw [← hgaps]
        exact hsingle gapStart hadd
      · rw [← hgaps]
        exact .nil _ _ _
    · obtain rfl := Option.some.inj h
      exact .nil _ _ _

/-- The gaps from a candle on lie apart. -/
theorem gapsFrom_spec {c : Candle} {cs : List Candle} {end_ : AwareDatetime} {gaps : List Gap}
    (hutc : ∀ d ∈ c :: cs, d.timestamp.zone = .utc)
    (hsorted : (c :: cs).Pairwise fun d e => d.instant z < e.instant z)
    (hend : ∀ d ∈ c :: cs, d.instant z < z.instant end_)
    (h : GapValidator.gapsFrom z c cs end_ = some gaps) :
    Apart z (c :: cs) (c.instant z + minuteMicros) (z.instant end_) gaps := by
  induction cs generalizing c gaps with
  | nil => exact gapAfter_spec (hutc c List.mem_cons_self) h
  | cons next cs ih =>
      rw [GapValidator.gapsFrom] at h
      split at h
      · rename_i between more hbetween hmore
        obtain rfl := Option.some.inj h
        obtain ⟨hlt, hsorted⟩ := List.pairwise_cons.1 hsorted
        have hnext : c.instant z < next.instant z := hlt next List.mem_cons_self
        have hrest := ih (fun d hd => hutc d (List.mem_cons_of_mem _ hd)) hsorted
          (fun d hd => hend d (List.mem_cons_of_mem _ hd)) hmore
        refine Apart.earlier ?_ le_rfl
        obtain ⟨expectedNext, hadd, hgap⟩ := Option.map_eq_some_iff.1 hbetween
        have hstart : z.instant expectedNext = c.instant z + minuteMicros :=
          instant_add? (hutc c List.mem_cons_self) hadd
        have hle : ∀ d ∈ cs, next.instant z ≤ d.instant z := fun d hd =>
          ((List.pairwise_cons.1 hsorted).1 d hd).le
        split at hgap
        · rw [← hgap]
          exact hrest.cons rfl hstart.ge (by omega)
            (hend next (List.mem_cons_of_mem _ List.mem_cons_self)).le hle
        · rw [← hgap]
          exact ⟨hrest.ordered, hrest.apart,
            fun g hg => le_trans (by omega) (hrest.le_start g hg), hrest.end_le⟩
      · cases h

theorem epoch_mono {a b : ℤ} (h : a ≤ b) : a.tdiv 1000000 ≤ b.tdiv 1000000 :=
  Int.tdiv_le_tdiv (by decide) h

/-- The stored candles are in the order of their instants. -/
theorem Listed.pairwise_instant {r : CandleRange} (hr : Listed z r) :
    r.candles.Pairwise fun c d => c.instant z < d.instant z := by
  refine (List.pairwise_map.1 hr.ascending).imp fun {c d} hlt => ?_
  by_contra hle
  exact absurd (epoch_mono (not_lt.1 hle)) (not_le.2 hlt)

/-- The gaps of a range lie apart. -/
theorem Listed.gaps_spec {r : CandleRange} (hr : Listed z r) {gaps : List Gap}
    (h : GapValidator.findGaps z r.candles r.start r.end_ = some gaps) :
    Apart z r.candles (z.instant r.start) (z.instant r.end_) gaps := by
  obtain ⟨start, end_, cs, isComplete, missingCount⟩ := r
  have hsorted := hr.pairwise_instant
  cases cs with
  | nil =>
      obtain rfl := Option.some.inj h
      refine ⟨List.pairwise_singleton _ _, fun g _ c hc => absurd hc List.not_mem_nil, fun g hg => ?_,
        fun g hg => ?_⟩ <;> rw [List.mem_singleton.1 hg]
  | cons first more =>
      obtain ⟨gaps, hgaps, rfl⟩ := Option.map_eq_some_iff.1 h
      have hrest := gapsFrom_spec hr.utc hsorted hr.lt_end hgaps
      have hfirst : z.instant start ≤ first.instant z := hr.start_le first List.mem_cons_self
      have hlo : z.instant start ≤ first.instant z + minuteMicros := by
        rw [minuteMicros]
        omega
      rw [GapValidator.gapBefore]
      split
      · exact hrest.cons rfl le_rfl hlo (hr.lt_end first List.mem_cons_self).le fun d hd =>
          ((List.pairwise_cons.1 hsorted).1 d hd).le
      · exact ⟨hrest.ordered, hrest.apart, fun g hg => hlo.trans (hrest.le_start g hg), hrest.end_le⟩

/-! ### The report -/

theorem gapsFrom_isSome_iff {c : Candle} {cs : List Candle} {end_ : AwareDatetime} :
    (GapValidator.gapsFrom z c cs end_).isSome ↔
      (∀ d ∈ (c :: cs).dropLast, (d.timestamp.add? minuteMicros).isSome) ∧
        ∃ last ∈ (c :: cs).getLast?, (GapValidator.gapAfter z last end_).isSome := by
  induction cs generalizing c with
  | nil => simp [GapValidator.gapsFrom]
  | cons next cs ih =>
      have hsplit : (GapValidator.gapsFrom z c (next :: cs) end_).isSome ↔
          (c.timestamp.add? minuteMicros).isSome ∧ (GapValidator.gapsFrom z next cs end_).isSome := by
        rw [GapValidator.gapsFrom, GapValidator.gapBetween]
        cases c.timestamp.add? minuteMicros with
        | none => simp
        | some e => cases GapValidator.gapsFrom z next cs end_ <;> simp
      rw [hsplit, ih, List.dropLast_cons_of_ne_nil (List.cons_ne_nil _ _), List.forall_mem_cons,
        List.getLast?_cons_cons, and_assoc]

theorem gapAfter_isSome_iff {last : Candle} {end_ : AwareDatetime} :
    (GapValidator.gapAfter z last end_).isSome ↔ ∃ expectedLast ∈ end_.add? (-minuteMicros),
      z.lt last.timestamp expectedLast → (last.timestamp.add? minuteMicros).isSome := by
  rw [GapValidator.gapAfter]
  cases end_.add? (-minuteMicros) with
  | none => simp
  | some expectedLast =>
      cases hlt : z.lt last.timestamp expectedLast <;> simp [hlt]

/-- The validator answers if the datetimes exist, with the count and the gaps. -/
theorem validate_spec (r : CandleRange) :
    (DatetimesExist z r ↔ ∃ report, GapValidator.validate z r.candles r.start r.end_ = some report) ∧
    ∀ report, GapValidator.validate z r.candles r.start r.end_ = some report →
      GapValidator.findGaps z r.candles r.start r.end_ = some report.gaps ∧
        report.missingCount = missingCount z r := by
  obtain ⟨start, end_, cs, isComplete, count⟩ := r
  cases cs with
  | nil =>
      refine ⟨iff_of_true (fun last hlast => by cases hlast) ⟨_, rfl⟩, fun report h => ?_⟩
      obtain rfl := Option.some.inj h
      exact ⟨rfl, (if_pos rfl).symm⟩
  | cons first more =>
      refine ⟨?_, fun report h => ?_⟩
      · rw [← Option.isSome_iff_exists]
        simp only [GapValidator.validate, GapValidator.findGaps, Option.isSome_map,
          gapsFrom_isSome_iff, gapAfter_isSome_iff, DatetimesExist]
        cases hlast : (first :: more).getLast? with
        | none => simp at hlast
        | some last => simp
      · obtain ⟨gaps, hgaps, rfl⟩ := Option.map_eq_some_iff.1 h
        exact ⟨hgaps, (if_neg (List.cons_ne_nil _ _)).symm⟩

/-! ### The candles of the provider -/

/-- What the filter lets through: seconds of full minutes between the ends, which were not seen. -/
theorem mem_validCandles {startTs endTs : ℤ} {cs : List Candle} {seen : List ℤ} {c : Candle}
    (h : c ∈ validCandles z startTs endTs cs seen) :
    startTs ≤ c.epoch z ∧ c.epoch z < endTs ∧ c.epoch z ∉ seen := by
  induction cs generalizing seen with
  | nil => exact absurd h List.not_mem_nil
  | cons d cs ih =>
      rw [validCandles] at h
      split at h
      · exact ih h
      · split at h
        · exact ih h
        · rename_i hin
          split at h
          · exact ih h
          · rename_i hseen
            rcases List.mem_cons.1 h with rfl | h
            · exact ⟨by omega, by omega, hseen⟩
            · obtain ⟨hle, hlt, hnot⟩ := ih h
              exact ⟨hle, hlt, fun hmem => hnot (List.mem_cons_of_mem _ hmem)⟩

theorem pairwise_validCandles (startTs endTs : ℤ) (cs : List Candle) (seen : List ℤ) :
    (validCandles z startTs endTs cs seen).Pairwise fun c d => c.epoch z ≠ d.epoch z := by
  induction cs generalizing seen with
  | nil => exact List.Pairwise.nil
  | cons d cs ih =>
      rw [validCandles]
      split
      · exact ih seen
      · split
        · exact ih seen
        · split
          · exact ih seen
          · refine List.pairwise_cons.2 ⟨fun e he heq => ?_, ih _⟩
            exact (mem_validCandles he).2.2 (heq ▸ List.mem_cons_self)

theorem mem_filterValidCandles {cs : List Candle} {startTs endTs : ℤ} {c : Candle}
    (h : c ∈ filterValidCandles z cs startTs endTs) : startTs ≤ c.epoch z ∧ c.epoch z < endTs := by
  obtain ⟨hle, hlt, -⟩ := mem_validCandles (StableSort.mem_sortBy.1 h)
  exact ⟨hle, hlt⟩

theorem pairwise_filterValidCandles (cs : List Candle) (startTs endTs : ℤ) :
    (filterValidCandles z cs startTs endTs).Pairwise fun c d => c.epoch z ≠ d.epoch z :=
  (StableSort.sortBy_perm _).symm.pairwise (pairwise_validCandles startTs endTs cs [])
    fun hne heq => hne heq.symm

/-- The candles that are taken for a gap. -/
def taken (z : Zones) (fetchOhlcv : Gap → ProviderAnswer) (g : Gap) : List Candle :=
  match fetchOhlcv g with
  | .candles cs => filterValidCandles z cs (z.epoch g.start) (z.epoch g.end_)
  | _ => []

theorem mem_taken {fetchOhlcv : Gap → ProviderAnswer} {g : Gap} {c : Candle}
    (h : c ∈ taken z fetchOhlcv g) : z.epoch g.start ≤ c.epoch z ∧ c.epoch z < z.epoch g.end_ := by
  rw [taken] at h
  split at h
  · exact mem_filterValidCandles h
  · exact absurd h List.not_mem_nil

theorem pairwise_taken (fetchOhlcv : Gap → ProviderAnswer) (g : Gap) :
    (taken z fetchOhlcv g).Pairwise fun c d => c.epoch z ≠ d.epoch z := by
  rw [taken]
  split
  · exact pairwise_filterValidCandles _ _ _
  · exact List.Pairwise.nil

/-- If all fetches succeed, then what is taken for each gap is put together. -/
theorem fetchGaps_of_candles {fetchOhlcv : Gap → ProviderAnswer} {gaps : List Gap}
    (h : ∀ g ∈ gaps, ∃ cs, fetchOhlcv g = .candles cs) :
    fetchGaps z fetchOhlcv gaps = .ok (gaps.flatMap (taken z fetchOhlcv)) := by
  induction gaps with
  | nil => rfl
  | cons g gs ih =>
      obtain ⟨cs, hcs⟩ := h g List.mem_cons_self
      have hrest := ih fun g' hg' => h g' (List.mem_cons_of_mem _ hg')
      simp only [fetchGaps, hcs, hrest, List.flatMap_cons, taken]
      rfl

/-- If a fetch fails, then there is a reason. -/
theorem fetchGaps_of_failed {fetchOhlcv : Gap → ProviderAnswer} {gaps : List Gap}
    (h : ∃ g ∈ gaps, ∀ cs, fetchOhlcv g ≠ .candles cs) :
    ∃ reason, fetchGaps z fetchOhlcv gaps = .error reason := by
  induction gaps with
  | nil =>
      obtain ⟨g, hg, -⟩ := h
      exact absurd hg List.not_mem_nil
  | cons g gs ih =>
      rw [fetchGaps]
      cases hg : fetchOhlcv g with
      | timeout => exact ⟨_, rfl⟩
      | raises text => exact ⟨_, rfl⟩
      | candles cs =>
          obtain ⟨g', hg', hfailed⟩ := h
          rcases List.mem_cons.1 hg' with rfl | hg'
          · exact absurd hg (hfailed cs)
          · obtain ⟨reason, hreason⟩ := ih ⟨g', hg', hfailed⟩
            exact ⟨reason, by simp only [hreason]; rfl⟩

theorem tdiv_of_neg {a : ℤ} (h : a < 0) : a.tdiv 1000000 = -(-a / 1000000) := by
  have heq := Int.neg_tdiv a 1000000
  rw [Int.tdiv_eq_ediv_of_nonneg (by omega)] at heq
  omega

/-- A minute later is a later second, before the epoch as well as after it. -/
theorem epoch_lt {a b : ℤ} (h : a + minuteMicros ≤ b) : a.tdiv 1000000 < b.tdiv 1000000 := by
  rw [minuteMicros] at h
  obtain ha | ha := lt_or_ge a 0
  · rw [tdiv_of_neg ha]
    obtain hb | hb := lt_or_ge b 0
    · rw [tdiv_of_neg hb]
      omega
    · rw [Int.tdiv_eq_ediv_of_nonneg hb]
      omega
  · rw [Int.tdiv_eq_ediv_of_nonneg ha, Int.tdiv_eq_ediv_of_nonneg (by omega)]
    omega

/-- All seconds of the stored candles and of what is taken for the gaps are different. -/
theorem Listed.pairwise_epoch {r : CandleRange} (hr : Listed z r) {gaps : List Gap} {lo hi : ℤ}
    (hgaps : Apart z r.candles lo hi gaps) (fetchOhlcv : Gap → ProviderAnswer) :
    (r.candles ++ gaps.flatMap (taken z fetchOhlcv)).Pairwise fun c d => c.epoch z ≠ d.epoch z := by
  refine List.pairwise_append.2 ⟨(List.pairwise_map.1 hr.ascending).imp fun hlt => hlt.ne, ?_, ?_⟩
  · refine List.pairwise_flatMap.2 ⟨fun g _ => pairwise_taken fetchOhlcv g, hgaps.ordered.imp ?_⟩
    intro g g' hle c hc d hd
    have hlt := (mem_taken hc).2
    have hge := (mem_taken hd).1
    have hmid : z.epoch g.end_ ≤ z.epoch g'.start := epoch_mono hle
    omega
  · intro c hc d hd
    obtain ⟨g, hg, hd⟩ := List.mem_flatMap.1 hd
    obtain ⟨hge, hlt⟩ := mem_taken hd
    rcases hgaps.apart g hg c hc with hbefore | hafter
    · have hmid : c.epoch z < z.epoch g.start := epoch_lt hbefore
      omega
    · have hmid : z.epoch g.end_ ≤ c.epoch z := epoch_mono hafter
      omega

/-! ### The merged candles -/

/-- Candles of new seconds are all added. -/
theorem foldl_set_absent {filled : List Candle} (d : Dict ℤ Candle)
    (hnew : ∀ c ∈ filled, c.epoch z ∉ d.keys)
    (hfilled : filled.Pairwise fun c c' => c.epoch z ≠ c'.epoch z) :
    filled.foldl (fun d c => if d.contains (c.epoch z) then d else d.set (c.epoch z) c) d =
      d.setAll (filled.map fun c => (c.epoch z, c)) := by
  induction filled generalizing d with
  | nil => rfl
  | cons c filled ih =>
      obtain ⟨hne, hfilled⟩ := List.pairwise_cons.1 hfilled
      have habsent : ¬ d.contains (c.epoch z) = true := fun hcontains =>
        hnew c List.mem_cons_self (Dict.mem_keys_iff_contains.2 hcontains)
      rw [List.foldl_cons, if_neg habsent, ih _ ?_ hfilled]
      · rfl
      · intro c' hc' hmem
        rcases Dict.mem_keys_set.1 hmem with heq | hmem
        · exact hne c' hc' heq.symm
        · exact hnew c' (List.mem_cons_of_mem _ hc') hmem

/-- Candles of different seconds are merged by their seconds. -/
theorem mergeCandlesByTs_eq {primary filled : List Candle}
    (h : (primary ++ filled).Pairwise fun c d => c.epoch z ≠ d.epoch z) :
    mergeCandlesByTs z primary filled =
      let byTs := Dict.keyed (Candle.epoch z) (primary ++ filled)
      byTs.sortedKeys.filterMap byTs.get? := by
  obtain ⟨-, hfilled, hne⟩ := List.pairwise_append.1 h
  have hprimary : primary.foldl (fun d c => d.set (c.epoch z) c) Dict.empty =
      Dict.keyed (Candle.epoch z) primary := by
    rw [Dict.keyed, Dict.setAll, List.foldl_map]
  rw [mergeCandlesByTs, hprimary]
  dsimp only
  rw [foldl_set_absent _ ?_ hfilled, ← Dict.keyed_append]
  intro c hc hmem
  obtain ⟨d, hd⟩ := Option.isSome_iff_exists.1 (Dict.mem_keys_iff_contains.1 hmem)
  rw [Dict.get?_keyed] at hd
  obtain ⟨hmem, heq⟩ := Dict.latest_eq_some hd
  exact hne d hmem c hc heq

theorem mem_mergeCandlesByTs {primary filled : List Candle}
    (h : (primary ++ filled).Pairwise fun c d => c.epoch z ≠ d.epoch z) {c : Candle} :
    c ∈ mergeCandlesByTs z primary filled ↔ c ∈ primary ∨ c ∈ filled := by
  rw [mergeCandlesByTs_eq h, ← List.mem_append, List.mem_filterMap]
  constructor
  · rintro ⟨k, -, hk⟩
    rw [Dict.get?_keyed] at hk
    exact (Dict.latest_eq_some hk).1
  · intro hc
    have hget : (Dict.keyed (Candle.epoch z) (primary ++ filled)).get? (c.epoch z) = some c := by
      rw [Dict.get?_keyed]
      exact (Dict.latest_eq_some_iff h).2 ⟨hc, rfl⟩
    exact ⟨c.epoch z, Dict.mem_sortedKeys.2 (Dict.mem_keys_of_get? hget), hget⟩

/-- Merged candles are in the order of their instants. -/
theorem pairwise_mergeCandlesByTs {primary filled : List Candle}
    (h : (primary ++ filled).Pairwise fun c d => c.epoch z ≠ d.epoch z) :
    ((mergeCandlesByTs z primary filled).map (Candle.instant z)).Pairwise (· < ·) := by
  rw [mergeCandlesByTs_eq h, List.pairwise_map, List.pairwise_filterMap]
  refine (Dict.sortedKeys_pairwise _).imp fun {k k'} hlt c hc d hd => ?_
  rw [Dict.get?_keyed] at hc hd
  obtain ⟨-, rfl⟩ := Dict.latest_eq_some hc
  obtain ⟨-, rfl⟩ := Dict.latest_eq_some hd
  by_contra hle
  exact absurd (epoch_mono (not_lt.1 hle)) (not_le.2 hlt)

/-! ### Counting -/

theorem mem_minutesIn {start end_ : AwareDatetime} {m : ℤ} :
    m ∈ minutesIn z start end_ ↔
      z.instant start ≤ m * minuteMicros ∧ m * minuteMicros < z.instant end_ := by
  rw [minutesIn, Finset.mem_Ico, minuteMicros]
  omega

/-- No minute is missing exactly if the window is complete. -/
theorem missingIn_eq_zero_iff {start end_ : AwareDatetime} {cs : List Candle} :
    missingIn z start end_ cs = 0 ↔ Complete z start end_ cs := by
  rw [missingIn, Finset.card_eq_zero, missingMinutesIn, Finset.filter_eq_empty_iff, Complete]
  simp only [mem_minutesIn, not_not, List.mem_map]
  constructor
  · rintro h m ⟨k, rfl⟩ hle hlt
    rw [mul_comm] at hle hlt ⊢
    exact h ⟨hle, hlt⟩
  · rintro h k ⟨hle, hlt⟩
    exact h _ (dvd_mul_left _ _) hle hlt

/-- Each candle that is filled in at a minute in the gaps is one missing minute less. -/
theorem missingIn_merged {start end_ : AwareDatetime} {cs filled merged : List Candle}
    {gaps : List Gap} (hgaps : Apart z cs (z.instant start) (z.instant end_) gaps)
    (hmem : ∀ c, c ∈ merged ↔ c ∈ cs ∨ c ∈ filled)
    (hfilled : filled.Pairwise fun c d => c.epoch z ≠ d.epoch z)
    (hin : ∀ c ∈ filled, InGaps z gaps c) :
    missingIn z start end_ cs = missingIn z start end_ merged + filled.length := by
  have hminute : ∀ c ∈ filled, c.instant z / minuteMicros * minuteMicros = c.instant z :=
    fun c hc => Int.ediv_mul_cancel (hin c hc).1
  have hnodup : (filled.map fun c => c.instant z / minuteMicros).Nodup := by
    refine List.pairwise_map.2 (hfilled.imp_of_mem fun {c d} hc hd hne heq => hne ?_)
    rw [Candle.epoch, Candle.epoch, ← hminute c hc, heq, hminute d hd]
  -- the missing minutes are those that stay missing, and those that are filled in
  have hstays : (missingMinutesIn z start end_ cs).filter
      (fun m => ¬ m ∈ filled.map fun c => c.instant z / minuteMicros) =
        missingMinutesIn z start end_ merged := by
    ext m
    simp only [missingMinutesIn, Finset.mem_filter, and_assoc, List.mem_map, hmem]
    refine and_congr_right fun _ => ?_
    constructor
    · rintro ⟨hcs, hfilled⟩ ⟨c, hc | hc, heq⟩
      · exact hcs ⟨c, hc, heq⟩
      · refine hfilled ⟨c, hc, ?_⟩
        rw [heq, Int.mul_ediv_cancel _ (by decide)]
    · intro hnot
      refine ⟨fun ⟨c, hc, heq⟩ => hnot ⟨c, Or.inl hc, heq⟩, ?_⟩
      rintro ⟨c, hc, rfl⟩
      exact hnot ⟨c, Or.inr hc, (hminute c hc).symm⟩
  have hgoes : (missingMinutesIn z start end_ cs).filter
      (fun m => m ∈ filled.map fun c => c.instant z / minuteMicros) =
        (filled.map fun c => c.instant z / minuteMicros).toFinset := by
    ext m
    simp only [Finset.mem_filter, List.mem_toFinset, and_iff_right_iff_imp]
    intro hm
    obtain ⟨c, hc, rfl⟩ := List.mem_map.1 hm
    obtain ⟨-, g, hg, hle, hlt⟩ := hin c hc
    have hstart := hgaps.le_start g hg
    have hend := hgaps.end_le g hg
    rw [missingMinutesIn, Finset.mem_filter, mem_minutesIn, hminute c hc]
    refine ⟨⟨hstart.trans hle, hlt.trans_le hend⟩, fun hstored => ?_⟩
    obtain ⟨d, hd, heq⟩ := List.mem_map.1 hstored
    have hapart := hgaps.apart g hg d hd
    rw [minuteMicros] at hapart
    omega
  rw [missingIn, ← Finset.card_filter_add_card_filter_not
    (fun m => m ∈ filled.map fun c => c.instant z / minuteMicros), hgoes, hstays,
    List.toFinset_card_of_nodup hnodup, List.length_map, missingIn, add_comm]

/-- A filled range is what it says it is, if and only if the candles that were filled in are at
minutes in the gaps and the number of the missing minutes was right. -/
theorem Listed.filled_iff {r : CandleRange} (hr : Listed z r) {gaps : List Gap}
    (hgaps : Apart z r.candles (z.instant r.start) (z.instant r.end_) gaps)
    (fetchOhlcv : Gap → ProviderAnswer) {requested : ℤ} :
    Filled z gaps r { r with
      candles := mergeCandlesByTs z r.candles (gaps.flatMap (taken z fetchOhlcv))
      isComplete := requested - ((gaps.flatMap (taken z fetchOhlcv)).length : ℤ) = 0
      missingCount := max 0 (requested - ((gaps.flatMap (taken z fetchOhlcv)).length : ℤ)) } ↔
    (∀ c ∈ gaps.flatMap (taken z fetchOhlcv), InGaps z gaps c) ∧
      requested = missingIn z r.start r.end_ r.candles := by
  set filled := gaps.flatMap (taken z fetchOhlcv) with hfilleddef
  have hne : (r.candles ++ filled).Pairwise fun c d => c.epoch z ≠ d.epoch z :=
    hr.pairwise_epoch hgaps fetchOhlcv
  have hmem : ∀ c, c ∈ mergeCandlesByTs z r.candles filled ↔ c ∈ r.candles ∨ c ∈ filled :=
    fun _ => mem_mergeCandlesByTs hne
  have hfilled : filled.Pairwise fun c d => c.epoch z ≠ d.epoch z :=
    (List.pairwise_append.1 hne).2.1
  have hcount := missingIn_merged hgaps hmem hfilled
  have hzero : missingIn z r.start r.end_ (mergeCandlesByTs z r.candles filled) = 0 ↔
      Complete z r.start r.end_ (mergeCandlesByTs z r.candles filled) := missingIn_eq_zero_iff
  constructor
  · intro h
    have hin : ∀ c ∈ filled, InGaps z gaps c := by
      intro c hc
      refine (h.added c ((hmem c).2 (Or.inr hc))).resolve_left fun hstored => ?_
      exact (List.pairwise_append.1 hne).2.2 c hstored c hc rfl
    refine ⟨hin, ?_⟩
    have hcomplete := h.complete
    have hmissing := h.missing
    dsimp only at hcomplete hmissing
    rw [decide_eq_true_eq, ← hzero] at hcomplete
    have := hcount hin
    omega
  · rintro ⟨hin, hrequested⟩
    have := hcount hin
    refine ⟨rfl, rfl, pairwise_mergeCandlesByTs hne, fun c hc => (hmem c).2 (Or.inl hc),
      fun c hc => ((hmem c).1 hc).imp id (hin c), ?_, ?_⟩
    · rw [decide_eq_true_eq, ← hzero]
      omega
    · dsimp only
      omega

/-! ### The answers of the service -/

/-- A count that is not zero is the difference. -/
theorem missingCount_of_ne_zero {r : CandleRange} (h : missingCount z r ≠ 0) :
    missingCount z r = minutesBetween z r.start r.end_ - r.candles.length := by
  rw [missingCount] at h ⊢
  split
  · rename_i hnil
    rw [hnil, List.length_nil, Int.natCast_zero, sub_zero]
  · rename_i hne
    rw [if_neg hne] at h
    omega

/-- A range that is not to be filled is answered as it is. -/
theorem maybeFill_of_skipped {r : CandleRange} {provider : Option (Gap → ProviderAnswer)}
    {maxMissing : ℤ} {report : ValidationReport}
    (hreport : GapValidator.validate z r.candles r.start r.end_ = some report)
    (h : Skipped provider maxMissing report.missingCount report.gaps) :
    ∃ stats, maybeFillGapsResponseOnly z r provider true maxMissing = some (r, stats) := by
  simp only [maybeFillGapsResponseOnly, not_true_eq_false, if_false, hreport]
  split
  · exact ⟨_, rfl⟩
  · rename_i hzero
    split
    · exact ⟨_, rfl⟩
    · rename_i hmax
      cases provider with
      | none => exact ⟨_, rfl⟩
      | some fetchOhlcv =>
          have hfailed := (h.resolve_left hzero).resolve_left hmax fetchOhlcv rfl
          obtain ⟨reason, hreason⟩ := fetchGaps_of_failed (z := z) hfailed
          simp only [hreason]
          exact ⟨_, rfl⟩

/-- Another one is answered with the candles that are taken for its gaps. -/
theorem maybeFill_of_not_skipped {r : CandleRange} {provider : Option (Gap → ProviderAnswer)}
    {maxMissing : ℤ} {report : ValidationReport}
    (hreport : GapValidator.validate z r.candles r.start r.end_ = some report)
    (h : ¬ Skipped provider maxMissing report.missingCount report.gaps) :
    ∃ fetchOhlcv stats, provider = some fetchOhlcv ∧
      (∀ g ∈ report.gaps, ∃ cs, fetchOhlcv g = .candles cs) ∧
      maybeFillGapsResponseOnly z r provider true maxMissing = some ({ r with
        candles := mergeCandlesByTs z r.candles (report.gaps.flatMap (taken z fetchOhlcv))
        isComplete := report.missingCount -
          ((report.gaps.flatMap (taken z fetchOhlcv)).length : ℤ) = 0
        missingCount := max 0 (report.missingCount -
          ((report.gaps.flatMap (taken z fetchOhlcv)).length : ℤ)) }, stats) := by
  simp only [Skipped, not_or, not_forall, not_exists, not_and] at h
  obtain ⟨hzero, hmax, fetchOhlcv, rfl, hfetched⟩ := h
  have hcandles : ∀ g ∈ report.gaps, ∃ cs, fetchOhlcv g = .candles cs := by
    intro g hg
    obtain ⟨cs, hcs⟩ := hfetched g hg
    exact ⟨cs, not_not.1 hcs⟩
  refine ⟨fetchOhlcv, ?stats, rfl, hcandles, ?run⟩
  case run =>
    simp only [maybeFillGapsResponseOnly, not_true_eq_false, if_false, hreport, if_neg hzero,
      if_neg hmax, fetchGaps_of_candles hcandles]
    rfl

/-- What is taken for the gaps fits exactly if the answers do. -/
theorem answersFit_iff {fetchOhlcv : Gap → ProviderAnswer} {gaps : List Gap}
    (h : ∀ g ∈ gaps, ∃ cs, fetchOhlcv g = .candles cs) :
    (∀ c ∈ gaps.flatMap (taken z fetchOhlcv), InGaps z gaps c) ↔ AnswersFit z fetchOhlcv gaps := by
  simp only [List.mem_flatMap, AnswersFit]
  constructor
  · intro hin g hg cs hcs c hc
    refine hin c ⟨g, hg, ?_⟩
    rw [taken, hcs]
    exact hc
  · rintro hfit c ⟨g, hg, hc⟩
    obtain ⟨cs, hcs⟩ := h g hg
    rw [taken, hcs] at hc
    exact hfit g hg cs hcs c hc

/-- The service answers as it should, if and only if it is switched off, or it does not raise, and a
range that is to be filled has its minutes counted right and gets answers that fit. -/
theorem honest_iff (z : Zones) (r : CandleRange) (hr : Listed z r)
    (provider : Option (Gap → ProviderAnswer)) (enabled : Bool) (maxMissing : ℤ) :
    Honest z r provider enabled maxMissing ↔ Fillable z r provider enabled maxMissing := by
  cases enabled with
  | false => exact iff_of_true ⟨r, _, rfl, rfl⟩ fun h => by cases h
  | true =>
      obtain ⟨hexist, hreports⟩ := validate_spec (z := z) r
      simp only [Honest, Fillable, if_true, true_implies, hexist]
      cases hreport : GapValidator.validate z r.candles r.start r.end_ with
      | none => simp
      | some report =>
          obtain ⟨hfind, hmissing⟩ := hreports report hreport
          have hgaps := hr.gaps_spec hfind
          simp only [Option.some.injEq, exists_eq', exists_eq_left', true_and, hfind, forall_eq',
            ← hmissing]
          by_cases hskipped : Skipped provider maxMissing report.missingCount report.gaps
          · obtain ⟨stats, hrun⟩ := maybeFill_of_skipped hreport hskipped
            simp [hskipped, hrun]
          · obtain ⟨fetchOhlcv, stats, rfl, hcandles, hrun⟩ :=
              maybeFill_of_not_skipped hreport hskipped
            have hne : report.missingCount ≠ 0 := fun heq => hskipped (Or.inl heq)
            have hcount : report.missingCount = missingIn z r.start r.end_ r.candles ↔
                CountsMinutes z r := by
              rw [hmissing] at hne ⊢
              rw [missingCount_of_ne_zero hne, CountsMinutes]
              omega
            have hfilled := (hr.filled_iff hgaps fetchOhlcv).trans
              (and_congr (answersFit_iff hcandles) hcount)
            simp only [hrun, hskipped, not_false_eq_true, true_implies, false_implies, true_and,
              Option.some.injEq, Prod.mk.injEq, Option.mem_def, forall_eq']
            rw [and_comm (a := CountsMinutes z r), ← hfilled]
            constructor
            · rintro ⟨r', stats', ⟨rfl, -⟩, h⟩
              exact h
            · intro h
              exact ⟨_, _, ⟨rfl, rfl⟩, h⟩

/-! ### Eighty seconds -/

theorem afternoon_minyear (seconds : Fin 3600) :
    monthStart 12 ≤ 1770732000000000 + 1000000 * (seconds : ℤ) := by
  have hmin : monthStart 12 ≤ 1770732000000000 := by decide +kernel
  omega

theorem afternoon_maxyear (seconds : Fin 3600) :
    1770732000000000 + 1000000 * (seconds : ℤ) < monthStart 120000 := by
  have hmax : 1770732000000000 + 3600000000 < monthStart 120000 := by decide +kernel
  have hlt := seconds.isLt
  omega

/-- Some seconds after two in the afternoon. -/
def afternoon (seconds : Fin 3600) : AwareDatetime where
  zone := .utc
  wall := 1770732000000000 + 1000000 * seconds
  fold := false
  minyear := afternoon_minyear seconds
  maxyear := afternoon_maxyear seconds

def afternoonCandle (seconds : Fin 3600) : Candle where
  timestamp := afternoon seconds
  ohlcv := .flat 1
  isClosed := true

/-- A window of the afternoon with nothing stored in it. -/
def emptyRange (start end_ : Fin 3600) : CandleRange where
  start := afternoon start
  end_ := afternoon end_
  candles := []
  isComplete := false
  missingCount := minutesBetween Zones.fallBack (afternoon start) (afternoon end_)

theorem listed_emptyRange {start end_ : Fin 3600} (h : start < end_) :
    Listed Zones.fallBack (emptyRange start end_) where
  lt := by
    have hlt : start.val < end_.val := h
    simp only [emptyRange, Zones.instant_utc, afternoon]
    omega
  utc c hc := absurd hc List.not_mem_nil
  ascending := List.Pairwise.nil
  start_le c hc := absurd hc List.not_mem_nil
  lt_end c hc := absurd hc List.not_mem_nil

/-- A provider that has the two minutes after two. -/
def twoMinutes : Gap → ProviderAnswer := fun _ => .candles [afternoonCandle 60, afternoonCandle 120]

/-- Three minutes, of which the last one is stored. -/
def lastStored : CandleRange where
  start := afternoon 60
  end_ := afternoon 240
  candles := [afternoonCandle 180]
  isComplete := false
  missingCount := 2

theorem listed_lastStored : Listed Zones.fallBack lastStored where
  lt := by decide
  utc c hc := by
    obtain rfl := List.mem_singleton.1 hc
    rfl
  ascending := List.pairwise_singleton _ _
  start_le := by decide
  lt_end := by decide

/-- The two minutes before the stored one are filled, and the range is reported as complete. -/
theorem honest_iff_lastStored :
    Honest Zones.fallBack lastStored (some twoMinutes) true 30 := by
  have hgaps : GapValidator.findGaps Zones.fallBack lastStored.candles lastStored.start
      lastStored.end_ = some [⟨afternoon 60, afternoon 180, 2⟩] := by
    decide +kernel
  refine (honest_iff _ _ listed_lastStored _ _ _).2 fun _ => ⟨?_, fun gaps hfound _ => ?_⟩
  · intro last hlast
    obtain rfl : afternoonCandle 180 = last := Option.some.inj hlast
    have hend : lastStored.end_.add? (-minuteMicros) = some (afternoon 180) := by decide +kernel
    have hnext : ((afternoonCandle 180).timestamp.add? minuteMicros).isSome := by decide +kernel
    exact ⟨fun c hc => absurd hc List.not_mem_nil, afternoon 180, hend, fun _ => hnext⟩
  · obtain rfl := Option.some.inj (hgaps.symm.trans hfound)
    have hcounts : CountsMinutes Zones.fallBack lastStored := by
      rw [CountsMinutes]
      decide +kernel
    refine ⟨hcounts, fun fetchOhlcv hfetch g hg cs hcs c hc => ?_⟩
    obtain rfl := Option.some.inj hfetch
    obtain rfl := ProviderAnswer.candles.inj hcs
    rw [List.mem_singleton.1 hg] at hc
    have hall : ∀ c ∈ filterValidCandles Zones.fallBack [afternoonCandle 60, afternoonCandle 120]
        (Zones.fallBack.epoch (afternoon 60)) (Zones.fallBack.epoch (afternoon 180)),
        minuteMicros ∣ c.instant Zones.fallBack ∧
          Zones.fallBack.instant (afternoon 60) ≤ c.instant Zones.fallBack ∧
          c.instant Zones.fallBack < Zones.fallBack.instant (afternoon 180) := by
      decide +kernel
    obtain ⟨haligned, hle, hlt⟩ := hall c hc
    exact ⟨haligned, _, List.mem_cons_self, hle, hlt⟩

/-- Two minutes start in the eighty seconds from fifty seconds past two.  Both are filled, and the
range is reported as incomplete, with no minute missing. -/
theorem eighty_seconds :
    Listed Zones.fallBack (emptyRange 50 130) ∧
    (∃ r' stats, maybeFillGapsResponseOnly Zones.fallBack (emptyRange 50 130) (some twoMinutes) true 30 =
        some (r', stats) ∧
      r'.candles = [afternoonCandle 60, afternoonCandle 120] ∧ r'.isComplete = false ∧
      r'.missingCount = 0 ∧ missingIn Zones.fallBack r'.start r'.end_ r'.candles = 0) ∧
    ¬ Honest Zones.fallBack (emptyRange 50 130) (some twoMinutes) true 30 := by
  have hrun : maybeFillGapsResponseOnly Zones.fallBack (emptyRange 50 130) (some twoMinutes) true 30 =
      some ({ emptyRange 50 130 with
          candles := [afternoonCandle 60, afternoonCandle 120]
          isComplete := false
          missingCount := 0 },
        { requested := 1, filled := 2, repairStatus := "read_through" }) := by
    decide +kernel
  have hzero : missingIn Zones.fallBack (emptyRange 50 130).start (emptyRange 50 130).end_
      [afternoonCandle 60, afternoonCandle 120] = 0 := by
    decide +kernel
  refine ⟨listed_emptyRange (by decide), ⟨_, _, hrun, rfl, rfl, rfl, hzero⟩, ?_⟩
  rintro ⟨r', stats, hrun', report, hreport, -, hfilled⟩
  obtain ⟨rfl, rfl⟩ := Prod.mk.inj (Option.some.inj (hrun.symm.trans hrun'))
  obtain rfl := Option.some.inj hreport
  -- the one minute that is counted is asked for, and the provider answers
  have hnotSkipped : ¬ Skipped (some twoMinutes) 30
      (minutesBetween Zones.fallBack (afternoon 50) (afternoon 130))
      [⟨afternoon 50, afternoon 130, minutesBetween Zones.fallBack (afternoon 50) (afternoon 130)⟩] := by
    have hcount : minutesBetween Zones.fallBack (afternoon 50) (afternoon 130) = 1 := by
      decide +kernel
    rw [hcount]
    rintro (hnone | hmax | hfailed)
    · exact absurd hnone (by decide)
    · exact absurd hmax (by decide)
    · obtain ⟨g, -, hfailed⟩ := hfailed twoMinutes rfl
      exact hfailed _ rfl
  have hcomplete := (hfilled hnotSkipped).complete
  cases hcomplete.2 (missingIn_eq_zero_iff.1 hzero)

end ReadThrough
