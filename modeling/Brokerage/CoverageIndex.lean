/-
**The Parquet files of a symbol and the index of their months.**

Every month that was downloaded has a Parquet file.  Beside the files there is an index, which marks
months as done, or as empty if the source has no candle for them; it is kept up by marking a month
after the other, and it can be rebuilt from the files.

A rebuild knows nothing of the marks: it marks the months that have a file, and no other.

Main definitions:

* `monthKey`, `monthsInRange` — months, and the text that stands for one;
* `HistoricalParquet` — the files and the index of a symbol;
* `HistoricalParquet.hasMonth`, `HistoricalParquet.writeMonth` — the files;
* `HistoricalParquet.markDone`, `HistoricalParquet.markEmpty`, `HistoricalParquet.getMonth` — the
  index;
* `HistoricalParquet.rebuild` — the index rebuilt.

Main results:

* `monthKey_injective`, `nodup_monthsInRange` — the texts of two months differ, and a range has each of
  its months once;
* `HistoricalParquet.status_rebuild` — what the index says after a rebuild;
* `HistoricalParquet.changed_rebuild_rebuild` — whether a second rebuild changes something.
-/

import Brokerage.Dict
import Brokerage.MixedOhlcv
import Brokerage.Text

set_option relaxedAutoImplicit false
set_option autoImplicit false

/-! ### Months -/

/-- One month comes before another. -/
def MonthLt (a b : ℕ × ℕ) : Prop := a.1 < b.1 ∨ a.1 = b.1 ∧ a.2 < b.2

theorem MonthLt.trans {a b c : ℕ × ℕ} (h : MonthLt a b) (h' : MonthLt b c) : MonthLt a c := by
  rw [MonthLt] at *
  omega

theorem MonthLt.ne {a b : ℕ × ℕ} (h : MonthLt a b) : a ≠ b := by
  rintro rfl
  rw [MonthLt] at h
  omega

def nextMonth (ym : ℕ × ℕ) : ℕ × ℕ :=
  if 12 < ym.2 + 1 then (ym.1 + 1, 1) else (ym.1, ym.2 + 1)

theorem monthLt_nextMonth (ym : ℕ × ℕ) : MonthLt ym (nextMonth ym) := by
  rw [nextMonth]
  split
  · exact Or.inl (Nat.lt_succ_self _)
  · exact Or.inr ⟨rfl, Nat.lt_succ_self _⟩

/-- The months from one on, up to another one, a number of them at most. -/
def monthsFrom (to_ : ℕ × ℕ) : ℕ → ℕ × ℕ → List (ℕ × ℕ)
  | 0, _ => []
  | fuel + 1, ym =>
      if ym.1 < to_.1 ∨ ym.1 = to_.1 ∧ ym.2 ≤ to_.2 then
        ym :: monthsFrom to_ fuel (nextMonth ym)
      else []

/-- The months of a range. -/
def monthsInRange (from_ to_ : ℕ × ℕ) : List (ℕ × ℕ) :=
  monthsFrom to_ (12 * to_.1 + to_.2 + 1 - (12 * from_.1 + from_.2)) from_

theorem pairwise_monthsFrom (to_ : ℕ × ℕ) (fuel : ℕ) (ym : ℕ × ℕ) :
    (monthsFrom to_ fuel ym).Pairwise MonthLt ∧
      ∀ ym' ∈ monthsFrom to_ fuel ym, ym' = ym ∨ MonthLt ym ym' := by
  induction fuel generalizing ym with
  | zero => exact ⟨List.Pairwise.nil, fun _ h => by cases h⟩
  | succ fuel ih =>
      obtain ⟨hpairwise, hle⟩ := ih (nextMonth ym)
      have hlt : ∀ ym' ∈ monthsFrom to_ fuel (nextMonth ym), MonthLt ym ym' := fun ym' h => by
        rcases hle ym' h with rfl | hlt
        · exact monthLt_nextMonth ym
        · exact (monthLt_nextMonth ym).trans hlt
      rw [monthsFrom]
      split
      · refine ⟨List.pairwise_cons.2 ⟨hlt, hpairwise⟩, fun ym' h => ?_⟩
        rcases List.mem_cons.1 h with rfl | h
        · exact Or.inl rfl
        · exact Or.inr (hlt ym' h)
      · exact ⟨List.Pairwise.nil, fun _ h => by cases h⟩

/-- A range has no month twice. -/
theorem nodup_monthsInRange (from_ to_ : ℕ × ℕ) : (monthsInRange from_ to_).Nodup :=
  (pairwise_monthsFrom to_ _ from_).1.imp MonthLt.ne

/-- The text of a month, as in `2020-01`. -/
def monthKey (ym : ℕ × ℕ) : String :=
  String.ofList (Text.padded 4 ym.1 ++ '-' :: Text.padded 2 ym.2)

theorem monthKey_injective : Function.Injective monthKey := by
  rintro ⟨y, m⟩ ⟨y', m'⟩ h
  have hdash : ∀ width n, '-' ∉ Text.padded width n := fun width n hmem =>
    absurd (Text.isDigit_of_mem_padded hmem) (by decide)
  have hlists := congrArg String.toList h
  rw [monthKey, monthKey, String.toList_ofList, String.toList_ofList,
    List.append_cons_inj_of_notMem (hdash _ _) (hdash _ _)] at hlists
  exact Prod.ext (Text.padded_injective 4 hlists.1) (Text.padded_injective 2 hlists.2.2)

/-! ### Files and marks -/

/-- The status of a month in the index. -/
inductive MonthStatus
  | done
  | failed
  | empty
  deriving DecidableEq

/-- What the index has of a month. -/
structure CoverageEntry where
  status : MonthStatus
  rows : ℕ
  coverageFrom : ℤ
  coverageTo : ℤ
  deriving DecidableEq

/-- A Parquet file: its rows, or none if it cannot be read. -/
abbrev ParquetFile := Option (List OhlcvRow)

/-- The Parquet files of a symbol by their months, and the index, if it was written yet. -/
structure HistoricalParquet where
  files : Dict (ℕ × ℕ) ParquetFile
  index : Option (Dict String CoverageEntry)

namespace HistoricalParquet

/-- The file of a month has rows. -/
def hasMonth (d : HistoricalParquet) (ym : ℕ × ℕ) : Bool :=
  match d.files.get? ym with
  | some (some (_ :: _)) => true
  | _ => false

/-- The checks before rows are written: no timestamp occurs twice, and they ascend. -/
def validateCandles (candles : List OhlcvRow) : Bool :=
  (candles.map OhlcvRow.ts).Nodup ∧ (candles.map OhlcvRow.ts).IsChain (· < ·)

/-- Writing the rows of a month; the checks may fail. -/
def writeMonth (d : HistoricalParquet) (ym : ℕ × ℕ) (candles : List OhlcvRow) :
    Option HistoricalParquet :=
  if candles = [] then some d
  else if validateCandles candles then some { d with files := d.files.set ym (some candles) }
  else none

/-- The marks of the index. -/
def marks (d : HistoricalParquet) : Dict String CoverageEntry := d.index.getD Dict.empty

def getMonth (d : HistoricalParquet) (ym : ℕ × ℕ) : Option CoverageEntry :=
  d.marks.get? (monthKey ym)

/-- The status of a month. -/
def status (d : HistoricalParquet) (ym : ℕ × ℕ) : Option MonthStatus :=
  (d.getMonth ym).map CoverageEntry.status

/-- Marking a month. -/
def mark (d : HistoricalParquet) (ym : ℕ × ℕ) (entry : CoverageEntry) : HistoricalParquet :=
  { d with index := some (d.marks.set (monthKey ym) entry) }

def markDone (d : HistoricalParquet) (ym : ℕ × ℕ) (rows : ℕ) (coverageFrom coverageTo : ℤ) :
    HistoricalParquet :=
  d.mark ym ⟨.done, rows, coverageFrom, coverageTo⟩

def markEmpty (d : HistoricalParquet) (ym : ℕ × ℕ) : HistoricalParquet :=
  d.mark ym ⟨.empty, 0, 0, 0⟩

/-! ### Rebuilding -/

/-- The least and the greatest timestamp of some rows. -/
def minMax (row : OhlcvRow) (rows : List OhlcvRow) : ℤ × ℤ :=
  rows.foldl (fun p row => (min p.1 row.ts, max p.2 row.ts)) (row.ts, row.ts)

/-- What a file says of its month. -/
def monthInfo : ParquetFile → CoverageEntry
  | none => ⟨.empty, 0, 0, 0⟩
  | some [] => ⟨.empty, 0, 0, 0⟩
  | some (row :: rows) =>
      ⟨.done, rows.length + 1, (minMax row rows).1, (minMax row rows).2⟩

/-- The marks that the files give. -/
def newMonths (d : HistoricalParquet) : Dict String CoverageEntry :=
  Dict.empty.setAll (d.files.entries.map fun p => (monthKey p.1, monthInfo p.2))

/-- What a rebuild returns, and the files and the index after it. -/
structure RebuildResult where
  changed : Bool
  doneMonths : List (ℕ × ℕ)
  store : HistoricalParquet

/-- The index has other marks than the files give. -/
def indexDiffers (d : HistoricalParquet) : Bool :=
  match d.index with
  | none => true
  | some months => ¬ months.entries.Perm d.newMonths.entries

/-- The index of the files is rebuilt; those of another timeframe would lie elsewhere, and there are
none. -/
def rebuild (d : HistoricalParquet) (tf : String) : RebuildResult :=
  if tf = "1m" then
    { changed := d.indexDiffers
      doneMonths := (d.files.entries.filter fun p => (monthInfo p.2).status = .done).map Prod.fst
      store :=
        if d.indexDiffers = true ∧ (d.newMonths.entries ≠ [] ∨ d.index.isSome = true) then
          { d with index := some d.newMonths }
        else d }
  else { changed := true, doneMonths := [], store := d }

/-! ### What marks and rebuilds do to the statuses -/

@[simp] theorem files_mark (d : HistoricalParquet) (ym : ℕ × ℕ) (entry : CoverageEntry) :
    (d.mark ym entry).files = d.files := rfl

theorem status_mark (d : HistoricalParquet) (ym ym' : ℕ × ℕ) (entry : CoverageEntry) :
    (d.mark ym entry).status ym' = if ym' = ym then some entry.status else d.status ym' := by
  have hmarks : (d.mark ym entry).marks = d.marks.set (monthKey ym) entry := rfl
  rw [status, getMonth, hmarks, Dict.get?_set]
  by_cases heq : ym' = ym
  · rw [if_pos heq, if_pos (congrArg monthKey heq)]
    rfl
  · rw [if_neg heq, if_neg fun hkey => heq (monthKey_injective hkey)]
    rfl

/-- The marks of the files. -/
theorem get?_newMonths (d : HistoricalParquet) (ym : ℕ × ℕ) :
    d.newMonths.get? (monthKey ym) = (d.files.get? ym).map monthInfo :=
  Dict.get?_setAll_map monthKey_injective monthInfo d.files ym

/-- The files have no marks just if there are none. -/
theorem newMonths_entries (d : HistoricalParquet) :
    d.newMonths.entries = [] ↔ d.files.entries = [] := by
  constructor
  · intro h
    by_contra hne
    obtain ⟨p, hp⟩ := List.exists_mem_of_ne_nil _ hne
    have hget : d.files.get? p.1 = some p.2 := Dict.get?_eq_some_iff.2 hp
    have hmark := d.get?_newMonths p.1
    rw [hget, Dict.get?, h] at hmark
    cases hmark
  · intro h
    rw [newMonths, h]
    rfl

/-- A rebuild finds the marks of the files in the index, or writes them; or there is neither an
index nor a file. -/
theorem rebuild_cases (d : HistoricalParquet) :
    ((d.rebuild "1m").store = d ∧
        ∃ months, d.index = some months ∧ months.entries.Perm d.newMonths.entries) ∨
      ((d.rebuild "1m").store = { d with index := some d.newMonths } ∧
        (d.index.isSome = true ∨ d.files.entries ≠ [])) ∨
      ((d.rebuild "1m").store = d ∧ d.index = none ∧ d.files.entries = []) := by
  rw [rebuild, if_pos rfl, indexDiffers]
  cases hindex : d.index with
  | none =>
      by_cases hfiles : d.files.entries = []
      · refine Or.inr (Or.inr ⟨if_neg ?_, rfl, hfiles⟩)
        rintro ⟨-, hne | hsome⟩
        · exact hne (d.newMonths_entries.2 hfiles)
        · cases hsome
      · refine Or.inr (Or.inl ⟨if_pos ⟨rfl, Or.inl fun h => ?_⟩, Or.inr hfiles⟩)
        exact hfiles (d.newMonths_entries.1 h)
  | some months =>
      by_cases hperm : months.entries.Perm d.newMonths.entries
      · refine Or.inl ⟨if_neg ?_, months, rfl, hperm⟩
        rintro ⟨hdiffers, -⟩
        exact of_decide_eq_true hdiffers hperm
      · exact Or.inr (Or.inl ⟨if_pos ⟨decide_eq_true hperm, Or.inr rfl⟩, Or.inl rfl⟩)

/-- The months that a rebuild finds done have rows. -/
theorem hasMonth_of_mem_doneMonths {d : HistoricalParquet} {tf : String} {ym : ℕ × ℕ}
    (h : ym ∈ (d.rebuild tf).doneMonths) : d.hasMonth ym = true := by
  rw [rebuild] at h
  split at h
  · obtain ⟨⟨_, file⟩, hmem, rfl⟩ := List.mem_map.1 h
    obtain ⟨hentry, hdone⟩ := List.mem_filter.1 hmem
    rw [hasMonth, Dict.get?_eq_some_iff.2 hentry]
    match file, hdone with
    | some (_ :: _), _ => rfl
  · cases h

theorem files_rebuild (d : HistoricalParquet) (tf : String) :
    (d.rebuild tf).store.files = d.files := by
  rw [rebuild]
  split
  · dsimp only
    split
    · rfl
    · rfl
  · rfl

/-- A rebuild leaves the marks of the files. -/
theorem get?_marks_rebuild (d : HistoricalParquet) (key : String) :
    (d.rebuild "1m").store.marks.get? key = d.newMonths.get? key := by
  obtain ⟨hstore, months, hindex, hperm⟩ | ⟨hstore, -⟩ | ⟨hstore, hindex, hfiles⟩ := d.rebuild_cases
  · rw [hstore, marks, hindex]
    exact Dict.lookup_of_perm hperm d.newMonths.nodup key
  · rw [hstore]
    rfl
  · rw [hstore, marks, hindex, Dict.get?, Dict.get?, d.newMonths_entries.2 hfiles]
    rfl

/-- After a rebuild the index has of a month what its file has. -/
theorem getMonth_rebuild (d : HistoricalParquet) (ym : ℕ × ℕ) :
    (d.rebuild "1m").store.getMonth ym = (d.files.get? ym).map monthInfo := by
  rw [getMonth, get?_marks_rebuild, get?_newMonths]

/-- After a rebuild the index says of a month what its file says. -/
theorem status_rebuild (d : HistoricalParquet) (ym : ℕ × ℕ) :
    (d.rebuild "1m").store.status ym =
      (d.files.get? ym).map fun file => (monthInfo file).status := by
  rw [status, getMonth_rebuild, Option.map_map]
  rfl

/-- A second rebuild changes nothing just if there was an index or a file. -/
theorem changed_rebuild_rebuild (d : HistoricalParquet) :
    ((d.rebuild "1m").store.rebuild "1m").changed = false ↔
      d.index.isSome = true ∨ d.files.entries ≠ [] := by
  have hnew : (d.rebuild "1m").store.newMonths = d.newMonths := by
    rw [newMonths, files_rebuild, newMonths]
  have hchanged : ((d.rebuild "1m").store.rebuild "1m").changed =
      (d.rebuild "1m").store.indexDiffers := rfl
  rw [hchanged, indexDiffers, hnew]
  obtain ⟨hstore, months, hindex, hperm⟩ | ⟨hstore, hsome⟩ | ⟨hstore, hindex, hfiles⟩ :=
    d.rebuild_cases
  · rw [hstore, hindex]
    exact iff_of_true (decide_eq_false (not_not.2 hperm)) (Or.inl rfl)
  · rw [hstore]
    exact iff_of_true (decide_eq_false (not_not.2 (List.Perm.refl _))) hsome
  · rw [hstore, hindex]
    refine iff_of_false (fun h => by cases h) ?_
    rintro (hsome | hne)
    · cases hsome
    · exact hne hfiles

end HistoricalParquet
