/-
**Building months from ticks.**

The builder goes through the months of a range whose end is not part of it, fetches each month that
has no file with rows yet, and writes what it gets.  It keeps no index: a month without rows, or
with an error, is tried again by the next run.  Of each month that was fetched it reports the gaps.

Main definitions:

* `TicksBuild.monthsInRange` — the months of a range without its end;
* `TicksBuild.computeGaps`, `TicksBuild.monthReport` — the gaps of a month, and what is reported of
  it;
* `TicksBuild.buildMonths` — a run.

Main results:

* `TicksBuild.gapTotalMin_eq` — the minutes of the gaps are those that are missing, and one more for
  each gap;
* `TicksBuild.mem_monthsInRange_iff` — the months are those that the range meets;
* `TicksBuild.runs_file` — a file is that of the first run that got rows, or of the last one that
  was forced;
* `TicksBuild.build_complete` — what a run without errors has.
-/

import Brokerage.GridWindow
import Brokerage.HistoricalBackfill

set_option relaxedAutoImplicit false
set_option autoImplicit false

namespace TicksBuild

open HistoricalBackfill (HasRows hasRows_some monthSeconds)

/-! ### Gaps -/

/-- A gap between two rows. -/
structure MonthGap where
  fromTs : ℤ
  toTs : ℤ
  gapS : ℤ
  gapMin : ℤ
  deriving DecidableEq

/-- The gaps of more than a minute between rows that follow each other. -/
def computeGaps : List OhlcvRow → List MonthGap
  | [] => []
  | [_] => []
  | a :: b :: rows =>
      let delta := b.ts - a.ts
      if 60 < delta then ⟨a.ts, b.ts, delta, delta / 60⟩ :: computeGaps (b :: rows)
      else computeGaps (b :: rows)

/-- What is reported of a month that was fetched. -/
structure MonthReport where
  candles : ℕ
  firstTs : Option ℤ
  lastTs : Option ℤ
  gapCount : ℕ
  gapTotalMin : ℤ
  gaps : List MonthGap
  written : Bool
  deriving DecidableEq

def monthReport (candles : List OhlcvRow) (written : Bool) : MonthReport where
  candles := candles.length
  firstTs := candles.head?.map OhlcvRow.ts
  lastTs := candles.getLast?.map OhlcvRow.ts
  gapCount := (computeGaps candles).length
  gapTotalMin := ((computeGaps candles).map MonthGap.gapMin).sum
  gaps := (computeGaps candles).take 20
  written := written

/-! ### Months -/

instance (a b : ℕ × ℕ) : Decidable (MonthLt a b) :=
  inferInstanceAs (Decidable (a.1 < b.1 ∨ a.1 = b.1 ∧ a.2 < b.2))

/-- The months from one on, before a day, a number of them at most. -/
def monthsFrom (to_ : ℕ × ℕ) (day : ℕ) : ℕ → ℕ × ℕ → List (ℕ × ℕ)
  | 0, _ => []
  | fuel + 1, ym =>
      if MonthLt ym to_ ∨ ym = to_ ∧ 1 < day then
        let next := nextMonth ym
        if MonthLt to_ next ∨ next = to_ ∧ day = 1 then [ym]
        else ym :: monthsFrom to_ day fuel next
      else []

/-- The months of a range that ends before a day. -/
def monthsInRange (from_ to_ : ℕ × ℕ) (day : ℕ) : List (ℕ × ℕ) :=
  monthsFrom to_ day (12 * to_.1 + to_.2 + 1 - (12 * from_.1 + from_.2)) from_

/-! ### A run -/

/-- What the source has of a month, or the text of an exception. -/
abbrev Provider := ℕ × ℕ → Except String (List OhlcvRow)

/-- The files of a symbol. -/
abbrev MonthFiles := Dict (ℕ × ℕ) ParquetFile

inductive BuildStatus
  | dryRun
  | written
  | empty
  deriving DecidableEq

/-- The report of a month. -/
inductive BuildReport
  | skipped (ym : ℕ × ℕ)
  | error (ym : ℕ × ℕ) (text : String)
  | built (ym : ℕ × ℕ) (status : BuildStatus) (report : MonthReport)
  deriving DecidableEq

/-- The file of a month has rows. -/
def hasMonth (files : MonthFiles) (ym : ℕ × ℕ) : Bool := HasRows (files.get? ym)

/-- How the builder is called. -/
structure BuildOptions where
  dryRun : Bool := false
  force : Bool := false

/-- Rows are written, if there are any. -/
def writeMonth (files : MonthFiles) (ym : ℕ × ℕ) (candles : List OhlcvRow) : MonthFiles × Bool :=
  if candles = [] then (files, false) else (files.set ym (some candles), true)

/-- Rows are written, unless the run is a dry one. -/
def writeCandles (o : BuildOptions) (files : MonthFiles) (ym : ℕ × ℕ) (candles : List OhlcvRow) :
    MonthFiles × Bool :=
  if ¬ o.dryRun ∧ candles ≠ [] then writeMonth files ym candles else (files, false)

/-- A month of a run. -/
def buildMonth (o : BuildOptions) (provider : Provider) (files : MonthFiles) (ym : ℕ × ℕ) :
    BuildReport × MonthFiles :=
  if ¬ o.force ∧ hasMonth files ym then (.skipped ym, files)
  else
    match provider ym with
    | .error text => (.error ym text, files)
    | .ok candles =>
        let result := writeCandles o files ym candles
        let status := if o.dryRun then .dryRun else if result.2 then .written else .empty
        (.built ym status (monthReport candles result.2), result.1)

/-- A run over some months: the reports and the files. -/
def buildMonths (o : BuildOptions) (provider : Provider) :
    List (ℕ × ℕ) → MonthFiles → List BuildReport × MonthFiles
  | [], files => ([], files)
  | ym :: months, files =>
      let result := buildMonth o provider files ym
      let rest := buildMonths o provider months result.2
      (result.1 :: rest.1, rest.2)

/-! ### The minutes of the gaps -/

/-- The steps from each row to the next. -/
def steps (ts : List ℤ) : List ℤ := (ts.zip ts.tail).map fun p => p.2 - p.1

theorem computeGaps_eq (rows : List OhlcvRow) :
    (computeGaps rows).map MonthGap.gapMin =
      ((steps (rows.map OhlcvRow.ts)).filter (60 < ·)).map (· / 60) := by
  induction rows with
  | nil => rfl
  | cons a rows ih =>
      cases rows with
      | nil => rfl
      | cons b rows =>
          have hsteps : steps ((a :: b :: rows).map OhlcvRow.ts) =
              (b.ts - a.ts) :: steps ((b :: rows).map OhlcvRow.ts) := rfl
          rw [hsteps, computeGaps]
          by_cases hgap : 60 < b.ts - a.ts
          · rw [if_pos hgap, List.filter_cons_of_pos (by simpa using hgap), List.map_cons,
              List.map_cons, ih]
          · rw [if_neg hgap, List.filter_cons_of_neg (by simpa using hgap), ih]

/-- Steps of whole minutes: those of the gaps, and nothing for the others. -/
theorem sum_steps {l : List ℤ} (h : ∀ d ∈ l, 0 < d ∧ 60 ∣ d) :
    ((l.filter (60 < ·)).map (· / 60)).sum =
      (l.map fun d => d / 60 - 1).sum + ((l.filter (60 < ·)).length : ℤ) := by
  induction l with
  | nil => rfl
  | cons d l ih =>
      have hrest := ih fun d hd => h d (List.mem_cons_of_mem _ hd)
      obtain ⟨hpos, k, rfl⟩ := h d List.mem_cons_self
      have hdiv : 60 * k / 60 = k := Int.mul_ediv_cancel_left k (by norm_num)
      by_cases hgap : (60 : ℤ) < 60 * k
      · rw [List.filter_cons_of_pos (by simpa using hgap), List.map_cons, List.sum_cons, hrest,
          List.map_cons, List.sum_cons, List.length_cons, hdiv]
        push_cast
        ring
      · have hone : k = 1 := by omega
        rw [List.filter_cons_of_neg (by simpa using hgap), hrest, List.map_cons, List.sum_cons,
          hdiv, hone, sub_self, zero_add]

theorem steps_of_sorted {l : List ℤ} (hsorted : l.Pairwise (· < ·)) (hdvd : ∀ t ∈ l, 60 ∣ t) :
    ∀ d ∈ steps l, 0 < d ∧ 60 ∣ d := by
  intro d hd
  induction l with
  | nil => cases hd
  | cons a l ih =>
      cases l with
      | nil => cases hd
      | cons b l =>
          rcases List.mem_cons.1 hd with rfl | hd
          · have hlt : a < b := List.rel_of_pairwise_cons hsorted List.mem_cons_self
            exact ⟨sub_pos.2 hlt, dvd_sub (hdvd b (List.mem_cons_of_mem _ List.mem_cons_self))
              (hdvd a List.mem_cons_self)⟩
          · exact ih hsorted.of_cons (fun t ht => hdvd t (List.mem_cons_of_mem _ ht)) hd

/-- The minutes of the gaps of a month are the minutes without a row between its first row and its
last one, and one more for each gap. -/
theorem gapTotalMin_eq (row : OhlcvRow) (rows : List OhlcvRow) (written : Bool)
    (hsorted : ((row :: rows).map OhlcvRow.ts).Pairwise (· < ·))
    (hminutes : ∀ t ∈ (row :: rows).map OhlcvRow.ts, 60 ∣ t) :
    (monthReport (row :: rows) written).gapTotalMin =
      GridWindow.missing 60 row.ts ((rows.map OhlcvRow.ts).getLastD row.ts + 60)
          ((row :: rows).map OhlcvRow.ts) +
        (monthReport (row :: rows) written).gapCount := by
  have hlength : (computeGaps (row :: rows)).length =
      ((steps ((row :: rows).map OhlcvRow.ts)).filter (60 < ·)).length := by
    have := congrArg List.length (computeGaps_eq (row :: rows))
    rwa [List.length_map, List.length_map] at this
  have hmissing : GridWindow.missing 60 row.ts ((rows.map OhlcvRow.ts).getLastD row.ts + 60)
      ((row :: rows).map OhlcvRow.ts) =
        (GridWindow.gapSizes 60 ((row :: rows).map OhlcvRow.ts)).sum :=
    GridWindow.missing_span (by norm_num) hsorted hminutes
  have hsizes := congrArg List.sum (GridWindow.map_gapSizes (by norm_num) hsorted hminutes)
  calc (monthReport (row :: rows) written).gapTotalMin
      = ((computeGaps (row :: rows)).map MonthGap.gapMin).sum := rfl
    _ = ((steps ((row :: rows).map OhlcvRow.ts)).map fun d => d / 60 - 1).sum +
          ((steps ((row :: rows).map OhlcvRow.ts)).filter (60 < ·)).length := by
        rw [computeGaps_eq, sum_steps (steps_of_sorted hsorted hminutes)]
    _ = _ := by
        rw [← hlength, hmissing, Nat.cast_list_sum, hsizes, steps, List.map_map]
        rfl

/-- Rows at three minutes. -/
def threeRows : List OhlcvRow := [⟨60, 1, 1, 1, 1, 0⟩, ⟨120, 1, 1, 1, 1, 0⟩, ⟨300, 1, 1, 1, 1, 0⟩]

theorem gapTotalMin_threeRows : (monthReport threeRows true).gapTotalMin = 3 ∧
    (monthReport threeRows true).gapTotalMin =
      GridWindow.missing 60 60 (300 + 60) (threeRows.map OhlcvRow.ts) + 1 :=
  ⟨by decide, gapTotalMin_eq ⟨60, 1, 1, 1, 1, 0⟩ [⟨120, 1, 1, 1, 1, 0⟩, ⟨300, 1, 1, 1, 1, 0⟩] true
    (by decide) (by decide)⟩

/-! ### The months of a range -/

/-- A month of the calendar. -/
def IsMonth (ym : ℕ × ℕ) : Prop := 1 ≤ ym.2 ∧ ym.2 ≤ 12

/-- The months in their order. -/
def monthIndex (ym : ℕ × ℕ) : ℕ := 12 * ym.1 + ym.2

theorem monthLt_iff {a b : ℕ × ℕ} (ha : IsMonth a) (hb : IsMonth b) :
    MonthLt a b ↔ monthIndex a < monthIndex b := by
  simp only [MonthLt, IsMonth, monthIndex] at *
  omega

theorem monthIndex_inj {a b : ℕ × ℕ} (ha : IsMonth a) (hb : IsMonth b) :
    a = b ↔ monthIndex a = monthIndex b := by
  rw [Prod.ext_iff]
  simp only [IsMonth, monthIndex] at *
  omega

theorem isMonth_nextMonth {ym : ℕ × ℕ} (h : IsMonth ym) : IsMonth (nextMonth ym) := by
  rw [nextMonth]
  simp only [IsMonth] at *
  split_ifs <;> dsimp only <;> omega

theorem monthIndex_nextMonth {ym : ℕ × ℕ} (h : IsMonth ym) :
    monthIndex (nextMonth ym) = monthIndex ym + 1 := by
  rw [nextMonth]
  simp only [IsMonth, monthIndex] at *
  split_ifs <;> dsimp only <;> omega

/-- The months of a range ascend. -/
theorem pairwise_monthsFrom (to_ : ℕ × ℕ) (day fuel : ℕ) (ym : ℕ × ℕ) :
    (monthsFrom to_ day fuel ym).Pairwise MonthLt ∧
      ∀ ym' ∈ monthsFrom to_ day fuel ym, ym' = ym ∨ MonthLt ym ym' := by
  induction fuel generalizing ym with
  | zero => exact ⟨List.Pairwise.nil, fun _ h => by cases h⟩
  | succ fuel ih =>
      obtain ⟨hpairwise, hle⟩ := ih (nextMonth ym)
      have hlt : ∀ ym' ∈ monthsFrom to_ day fuel (nextMonth ym), MonthLt ym ym' := fun ym' h => by
        rcases hle ym' h with rfl | hlt
        · exact monthLt_nextMonth ym
        · exact (monthLt_nextMonth ym).trans hlt
      rw [monthsFrom]
      dsimp only
      split_ifs
      · exact ⟨List.pairwise_singleton _ _, fun ym' h => .inl (List.mem_singleton.1 h)⟩
      · refine ⟨List.pairwise_cons.2 ⟨hlt, hpairwise⟩, fun ym' h => ?_⟩
        rcases List.mem_cons.1 h with rfl | h
        · exact .inl rfl
        · exact .inr (hlt ym' h)
      · exact ⟨List.Pairwise.nil, fun _ h => by cases h⟩

/-- The loop has the months from its first one up to the last one before the end. -/
theorem mem_monthsFrom {to_ : ℕ × ℕ} {day : ℕ} (hto : IsMonth to_) (hday : 1 ≤ day) {fuel : ℕ}
    {ym ym' : ℕ × ℕ} (hfuel : monthIndex to_ + 1 - monthIndex ym ≤ fuel) (hym : IsMonth ym)
    (hym' : IsMonth ym') :
    ym' ∈ monthsFrom to_ day fuel ym ↔ monthIndex ym ≤ monthIndex ym' ∧
      (monthIndex ym' < monthIndex to_ ∨ monthIndex ym' = monthIndex to_ ∧ 1 < day) := by
  induction fuel generalizing ym with
  | zero => exact iff_of_false List.not_mem_nil (by omega)
  | succ fuel ih =>
      have hnext := isMonth_nextMonth hym
      have hsucc := monthIndex_nextMonth hym
      rw [monthsFrom]
      simp only [monthLt_iff hym hto, monthLt_iff hto hnext, monthIndex_inj hym hto,
        monthIndex_inj hnext hto]
      split_ifs with hmore hlast
      · rw [List.mem_singleton, monthIndex_inj hym' hym]
        omega
      · rw [List.mem_cons, ih (by omega) hnext, monthIndex_inj hym' hym]
        omega
      · exact iff_of_false List.not_mem_nil (by omega)

theorem monthSeconds_lt_iff {a b : ℕ × ℕ} :
    monthSeconds a < monthSeconds b ↔ monthIndex a < monthIndex b := by
  have hseconds : ∀ ym, monthStart (12 * ym.1 + ym.2 - 1) = 1000000 * monthSeconds ym := by
    intro ym
    have hdvd : (1000000 : ℤ) ∣ monthStart (12 * ym.1 + ym.2 - 1) := by
      rw [monthStart]
      exact Dvd.dvd.mul_right (by decide) _
    exact (Int.mul_ediv_cancel' hdvd).symm
  have hlt := monthStart_strictMono.lt_iff_lt (a := (12 * a.1 + a.2 - 1 : ℤ))
    (b := (12 * b.1 + b.2 - 1 : ℤ))
  rw [hseconds, hseconds] at hlt
  rw [monthIndex, monthIndex]
  omega

/-- The end of a range, in seconds. -/
def rangeEnd (to_ : ℕ × ℕ) (day : ℕ) : ℤ := monthSeconds to_ + 86400 * (day - 1)

/-- The months of a range are those that begin in it, if it is taken from the first day of its first
month on. -/
theorem mem_monthsInRange_iff {from_ to_ ym : ℕ × ℕ} {day : ℕ} (hfrom : IsMonth from_)
    (hto : IsMonth to_) (hym : IsMonth ym) (hday : 1 ≤ day)
    (hend : rangeEnd to_ day < monthSeconds (nextMonth to_)) :
    ym ∈ monthsInRange from_ to_ day ↔
      monthSeconds from_ ≤ monthSeconds ym ∧ monthSeconds ym < rangeEnd to_ day := by
  have hmem : ym ∈ monthsInRange from_ to_ day ↔ monthIndex from_ ≤ monthIndex ym ∧
      (monthIndex ym < monthIndex to_ ∨ monthIndex ym = monthIndex to_ ∧ 1 < day) :=
    mem_monthsFrom hto hday le_rfl hfrom hym
  rw [hmem, ← not_lt, ← monthSeconds_lt_iff, not_lt]
  refine and_congr_right fun _ => ?_
  have hnext : monthIndex ym < monthIndex (nextMonth to_) ↔
      monthSeconds ym < monthSeconds (nextMonth to_) := monthSeconds_lt_iff.symm
  have hlt : monthSeconds ym < monthSeconds to_ ↔ monthIndex ym < monthIndex to_ :=
    monthSeconds_lt_iff
  rw [monthIndex_nextMonth hto] at hnext
  rw [rangeEnd] at hend ⊢
  by_cases hsame : monthIndex ym = monthIndex to_
  · rw [(monthIndex_inj hym hto).2 hsame]
    omega
  · omega

/-! ### The file of a month -/

variable {o : BuildOptions} {provider : Provider} {files : MonthFiles} {ym ym' : ℕ × ℕ}

/-- What a run has to write for a month: nothing, or some rows. -/
def offered (o : BuildOptions) (answer : Except String (List OhlcvRow)) : List OhlcvRow :=
  match answer with
  | .error _ => []
  | .ok candles => if o.dryRun then [] else candles

/-- The file of a month after a run that has some rows for it. -/
def builtFile (force : Bool) (rows : List OhlcvRow) (file : Option ParquetFile) :
    Option ParquetFile :=
  if rows = [] ∨ ¬ force ∧ HasRows file then file else some (some rows)

theorem files_buildMonth : (buildMonth o provider files ym).2 =
    if offered o (provider ym) = [] ∨ ¬ o.force ∧ HasRows (files.get? ym) then files
    else files.set ym (some (offered o (provider ym))) := by
  have hmonth : hasMonth files ym = true ↔ HasRows (files.get? ym) := decide_eq_true_iff
  rw [buildMonth]
  by_cases hskip : ¬ o.force ∧ hasMonth files ym
  · rw [if_pos hskip, if_pos (.inr ⟨hskip.1, hmonth.1 hskip.2⟩)]
  · have hnot : ¬ (¬ o.force ∧ HasRows (files.get? ym)) := fun h => hskip ⟨h.1, hmonth.2 h.2⟩
    simp only [if_neg hskip, or_iff_left hnot]
    cases hanswer : provider ym with
    | error text => exact (if_pos rfl).symm
    | ok candles =>
        change (writeCandles o files ym candles).1 = _
        rw [writeCandles]
        by_cases hdry : o.dryRun = true
        · have hoffered : offered o (.ok candles) = [] := if_pos hdry
          rw [if_neg fun h : ¬ o.dryRun = true ∧ candles ≠ [] => h.1 hdry, if_pos hoffered]
        · have hoffered : offered o (.ok candles) = candles := if_neg hdry
          by_cases hnil : candles = []
          · rw [if_neg fun h : ¬ o.dryRun = true ∧ candles ≠ [] => h.2 hnil,
              if_pos (hoffered.trans hnil)]
          · rw [if_pos ⟨hdry, hnil⟩, writeMonth, if_neg hnil,
              if_neg fun h => hnil (hoffered.symm.trans h), hoffered]

theorem get?_buildMonth : (buildMonth o provider files ym).2.get? ym' =
    if ym' = ym then builtFile o.force (offered o (provider ym)) (files.get? ym)
    else files.get? ym' := by
  rw [files_buildMonth, builtFile]
  by_cases heq : ym' = ym
  · subst heq
    rw [if_pos rfl]
    split_ifs
    · rfl
    · exact Dict.get?_set_self ..
  · rw [if_neg heq]
    split_ifs
    · rfl
    · exact Dict.get?_set_of_ne _ _ heq

theorem builtFile_builtFile (force : Bool) (rows : List OhlcvRow) (file : Option ParquetFile) :
    builtFile force rows (builtFile force rows file) = builtFile force rows file := by
  by_cases hskip : rows = [] ∨ ¬ force ∧ HasRows file
  · rw [show builtFile force rows file = file from if_pos hskip]
    exact if_pos hskip
  · rw [show builtFile force rows file = some (some rows) from if_neg hskip, builtFile]
    split_ifs <;> rfl

/-- A run does each of its months by itself. -/
theorem get?_buildMonths (months : List (ℕ × ℕ)) :
    (buildMonths o provider months files).2.get? ym =
      if ym ∈ months then builtFile o.force (offered o (provider ym)) (files.get? ym)
      else files.get? ym := by
  induction months generalizing files with
  | nil => rfl
  | cons ym' months ih =>
      rw [buildMonths]
      dsimp only
      rw [ih, get?_buildMonth]
      by_cases heq : ym = ym'
      · subst heq
        rw [if_pos rfl, if_pos List.mem_cons_self, builtFile_builtFile, ite_self]
      · rw [if_neg heq]
        exact if_congr (by rw [List.mem_cons, or_iff_right heq]) rfl rfl

/-! ### Runs -/

/-- A call of the builder. -/
structure BuildCall where
  options : BuildOptions
  provider : Provider
  months : List (ℕ × ℕ)

/-- The files after some runs. -/
def runs (calls : List BuildCall) (files : MonthFiles) : MonthFiles :=
  calls.foldl (fun files c => (buildMonths c.options c.provider c.months files).2) files

/-- The rows that some runs have for a month, with whether they are forced. -/
def offers (calls : List BuildCall) (ym : ℕ × ℕ) : List (Bool × List OhlcvRow) :=
  (calls.filter fun c =>
      c.months.contains ym ∧ offered c.options (c.provider ym) ≠ []).map fun c =>
    (c.options.force, offered c.options (c.provider ym))

theorem get?_runs (calls : List BuildCall) (files : MonthFiles) (ym : ℕ × ℕ) :
    (runs calls files).get? ym =
      (offers calls ym).foldl (fun file offer => builtFile offer.1 offer.2 file)
        (files.get? ym) := by
  induction calls generalizing files with
  | nil => rfl
  | cons c calls ih =>
      rw [runs, List.foldl_cons]
      refine (ih _).trans ?_
      rw [get?_buildMonths, offers, offers]
      by_cases hmem : ym ∈ c.months
      · by_cases hnil : offered c.options (c.provider ym) = []
        · rw [List.filter_cons_of_neg (by simp [hnil]), if_pos hmem, builtFile,
            if_pos (.inl hnil)]
        · rw [List.filter_cons_of_pos (by simp [hmem, hnil]), if_pos hmem, List.map_cons,
            List.foldl_cons]
      · rw [List.filter_cons_of_neg (by simp [hmem]), if_neg hmem]

theorem hasRows_builtFile {force : Bool} {rows : List OhlcvRow} {file : Option ParquetFile}
    (h : rows ≠ [] ∨ HasRows file) : HasRows (builtFile force rows file) := by
  rw [builtFile]
  split_ifs with hskip
  · exact h.elim (fun hrows => (hskip.resolve_left hrows).2) id
  · exact hasRows_some.2 fun hnil => hskip (.inl hnil)

/-- Rows that are there are kept, unless a run is forced; the last one that is forced counts. -/
theorem foldl_builtFile {l : List (Bool × List OhlcvRow)} (hl : ∀ offer ∈ l, offer.2 ≠ [])
    {file : Option ParquetFile} (hfile : HasRows file) :
    HasRows (l.foldl (fun file offer => builtFile offer.1 offer.2 file) file) ∧
      l.foldl (fun file offer => builtFile offer.1 offer.2 file) file =
        ((l.filter Prod.fst).getLast?.map fun offer => some offer.2).or file := by
  induction l using List.reverseRecOn with
  | nil => exact ⟨hfile, rfl⟩
  | append_singleton l offer ih =>
      obtain ⟨hrows, hfold⟩ := ih fun offer hmem => hl offer (List.mem_append_left _ hmem)
      have hoffer := hl offer (List.mem_append_right _ List.mem_cons_self)
      rw [List.foldl_append, List.foldl_cons, List.foldl_nil]
      refine ⟨hasRows_builtFile (.inl hoffer), ?_⟩
      cases hforce : offer.1 with
      | true =>
          rw [List.filter_append, List.filter_cons_of_pos hforce, List.filter_nil,
            List.getLast?_append, builtFile, if_neg (by simp [hoffer])]
          rfl
      | false =>
          rw [List.filter_append, List.filter_cons_of_neg (by simp [hforce]), List.filter_nil,
            List.append_nil, builtFile, if_pos (.inr ⟨by simp, hrows⟩), hfold]

/-- After any runs, the file of a month is that of the last forced run that had rows for it; without
one it is as it was, if it had rows, and otherwise that of the first run that had some. -/
theorem runs_file (calls : List BuildCall) (files : MonthFiles) (ym : ℕ × ℕ) :
    (runs calls files).get? ym =
      (((offers calls ym).filter Prod.fst).getLast?.map fun offer => some offer.2).or
        (if HasRows (files.get? ym) then files.get? ym
        else ((offers calls ym).head?.map fun offer => some offer.2).or (files.get? ym)) := by
  have hoffers : ∀ offer ∈ offers calls ym, offer.2 ≠ [] := by
    intro offer hmem
    obtain ⟨c, hc, rfl⟩ := List.mem_map.1 hmem
    exact (of_decide_eq_true (List.mem_filter.1 hc).2).2
  rw [get?_runs]
  by_cases hrows : HasRows (files.get? ym)
  · rw [if_pos hrows]
    exact (foldl_builtFile hoffers hrows).2
  · rw [if_neg hrows]
    cases hl : offers calls ym with
    | nil => rfl
    | cons offer l =>
        rw [hl] at hoffers
        have hfirst : builtFile offer.1 offer.2 (files.get? ym) = some (some offer.2) :=
          if_neg (not_or.2 ⟨hoffers offer List.mem_cons_self, fun h => hrows h.2⟩)
        rw [List.foldl_cons, hfirst]
        refine (foldl_builtFile (fun offer hmem => hoffers offer (List.mem_cons_of_mem _ hmem))
          (hasRows_some.2 (hoffers offer List.mem_cons_self))).2.trans ?_
        cases hforce : offer.1 with
        | true =>
            rw [List.filter_cons_of_pos hforce, List.getLast?_cons]
            cases (l.filter Prod.fst).getLast? with
            | none => rfl
            | some last => rfl
        | false =>
            rw [List.filter_cons_of_neg (by simp [hforce])]
            rfl

/-! ### A run without errors -/

/-- The month of a report. -/
def BuildReport.month : BuildReport → ℕ × ℕ
  | .skipped ym => ym
  | .error ym _ => ym
  | .built ym _ _ => ym

/-- A month could not be fetched. -/
def BuildReport.isError : BuildReport → Bool
  | .error _ _ => true
  | _ => false

theorem month_buildMonth : (buildMonth o provider files ym).1.month = ym := by
  rw [buildMonth]
  by_cases hskip : ¬ o.force ∧ hasMonth files ym
  · rw [if_pos hskip]
    rfl
  · rw [if_neg hskip]
    cases provider ym with
    | error text => rfl
    | ok candles => rfl

/-- A month without an error has a file with rows, or the source has none for it. -/
theorem of_not_isError (hdry : o.dryRun = false)
    (hok : (buildMonth o provider files ym).1.isError = false) :
    HasRows (builtFile o.force (offered o (provider ym)) (files.get? ym)) ∨
      provider ym = .ok [] := by
  have hmonth : hasMonth files ym = true ↔ HasRows (files.get? ym) := decide_eq_true_iff
  by_cases hskip : ¬ o.force ∧ hasMonth files ym
  · exact .inl (hasRows_builtFile (.inr (hmonth.1 hskip.2)))
  · rw [buildMonth, if_neg hskip] at hok
    cases hanswer : provider ym with
    | error text =>
        rw [hanswer] at hok
        cases hok
    | ok candles =>
        by_cases hnil : candles = []
        · exact .inr (congrArg Except.ok hnil)
        · refine .inl (hasRows_builtFile (.inl ?_))
          rw [offered, hdry]
          exact hnil

theorem months_buildMonths (months : List (ℕ × ℕ)) :
    (buildMonths o provider months files).1.map BuildReport.month = months := by
  induction months generalizing files with
  | nil => rfl
  | cons ym months ih => exact congrArg₂ List.cons month_buildMonth ih

theorem hasRows_buildMonths {months : List (ℕ × ℕ)} (hdry : o.dryRun = false)
    (hok : ∀ r ∈ (buildMonths o provider months files).1, r.isError = false) (hmem : ym ∈ months) :
    HasRows ((buildMonths o provider months files).2.get? ym) ∨ provider ym = .ok [] := by
  induction months generalizing files with
  | nil => exact absurd hmem List.not_mem_nil
  | cons ym' months ih =>
      by_cases hrest : ym ∈ months
      · exact ih (fun r hr => hok r (List.mem_cons_of_mem _ hr)) hrest
      · obtain rfl := (List.mem_cons.1 hmem).resolve_right hrest
        have hhere := of_not_isError hdry (hok _ List.mem_cons_self)
        have hget : (buildMonths o provider (ym :: months) files).2.get? ym =
            builtFile o.force (offered o (provider ym)) (files.get? ym) :=
          (get?_buildMonths (ym :: months)).trans (if_pos hmem)
        rwa [hget]

/-- A run over a range reports each of its months once, in ascending order.  If it has no errors and
writes, then every month of the calendar that begins in the range has a file with rows, or the source
has none for it; the other months are left alone. -/
theorem build_complete (o : BuildOptions) (provider : Provider) (files : MonthFiles)
    {from_ to_ : ℕ × ℕ} {day : ℕ} (hfrom : IsMonth from_) (hto : IsMonth to_) (hday : 1 ≤ day)
    (hend : rangeEnd to_ day < monthSeconds (nextMonth to_)) :
    let run := buildMonths o provider (monthsInRange from_ to_ day) files
    run.1.map BuildReport.month = monthsInRange from_ to_ day ∧
      (monthsInRange from_ to_ day).Pairwise MonthLt ∧
      (o.dryRun = false → (∀ r ∈ run.1, r.isError = false) → ∀ ym, IsMonth ym →
        monthSeconds from_ ≤ monthSeconds ym → monthSeconds ym < rangeEnd to_ day →
          HasRows (run.2.get? ym) ∨ provider ym = .ok []) ∧
      ∀ ym, IsMonth ym → ¬ (monthSeconds from_ ≤ monthSeconds ym ∧
        monthSeconds ym < rangeEnd to_ day) → run.2.get? ym = files.get? ym := by
  intro run
  refine ⟨months_buildMonths _, (pairwise_monthsFrom to_ day _ from_).1,
    fun hdry hok ym hym hle hlt => ?_, fun ym hym hout => ?_⟩
  · exact hasRows_buildMonths hdry hok
      ((mem_monthsInRange_iff hfrom hto hym hday hend).2 ⟨hle, hlt⟩)
  · exact (get?_buildMonths _).trans
      (if_neg (mt (mem_monthsInRange_iff hfrom hto hym hday hend).1 hout))

theorem build_complete_march :
    let run := buildMonths {} (fun _ => .ok threeRows) (monthsInRange (2025, 3) (2025, 5) 1) Dict.empty
    run.1.map BuildReport.month = monthsInRange (2025, 3) (2025, 5) 1 ∧
      (monthsInRange (2025, 3) (2025, 5) 1).Pairwise MonthLt :=
  have h := build_complete {} (fun _ => .ok threeRows) Dict.empty
    (show IsMonth (2025, 3) from ⟨by decide, by decide⟩)
    (show IsMonth (2025, 5) from ⟨by decide, by decide⟩) le_rfl (by decide +kernel)
  ⟨h.1, h.2.1⟩

end TicksBuild
