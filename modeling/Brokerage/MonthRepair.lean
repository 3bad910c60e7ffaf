/-
**The repair of the months that lack rows.**

The repair lists the months of a range, or those it is told, whose file is missing, cannot be read
or has fewer rows than a threshold.  It asks the feed for each of them and writes what comes over
the file.  A month for which nothing comes, or whose candles are refused, keeps its file.  At the
end the index is rebuilt, if a month was repaired.

A second repair lists only what the first one could not mend, and leaves the files as they are.

Main definitions:

* `MonthRepair.monthsToRepair` — the months that lack rows;
* `MonthRepair.runRepair` — a repair, with its report;
* `MonthRepair.obtained` — the rows that the feed gives for a month.

Main results:

* `MonthRepair.runRepair_spec` — what a repair does to the files and the index, and what it reports;
* `MonthRepair.runRepair_again` — a second repair;
* `MonthRepair.runRepair_feed` — what a repaired month has, of what the feed has.
-/

import Brokerage.Bi5Range
import Brokerage.CoverageIndex

set_option relaxedAutoImplicit false
set_option autoImplicit false

namespace MonthRepair

open Bi5Range (M1Row toCandle)

/-! ### The months that lack rows -/

/-- The directory of a symbol, and whether it exists. -/
structure Tree where
  store : HistoricalParquet
  rootExists : Bool
  noFiles : rootExists = false → store.files = Dict.empty

/-- How a repair is called. -/
structure Options where
  dryRun : Bool
  fromDate : Option (ℕ × ℕ) := none
  toDate : Option (ℕ × ℕ) := none
  months : Option (List (ℕ × ℕ)) := none
  minRowsThreshold : ℤ := 1000

/-- `_months_with_data`. -/
def monthsWithData (t : Tree) : List (ℕ × ℕ) :=
  (t.store.files.entries.filter fun p => 0 < (p.2.getD []).length).map Prod.fst

/-- `_rows_per_month`: the months whose file can be read. -/
def rowsPerMonth (t : Tree) : Dict (ℕ × ℕ) ℕ :=
  Dict.empty.setAll
    (t.store.files.entries.filterMap fun p => p.2.map fun rows => (p.1, rows.length))

/-- The order of the months. -/
def MonthLe (a b : ℕ × ℕ) : Prop := a.1 < b.1 ∨ (a.1 = b.1 ∧ a.2 ≤ b.2)

instance : DecidableRel MonthLe := fun a b =>
  inferInstanceAs (Decidable (a.1 < b.1 ∨ (a.1 = b.1 ∧ a.2 ≤ b.2)))

/-- The months that may be repaired. -/
def candidates (o : Options) : List (ℕ × ℕ) :=
  match o.months with
  | some (ym :: yms) => ym :: yms
  | _ => monthsInRange (o.fromDate.getD (2003, 5)) (o.toDate.getD (2026, 2))

/-- A month lacks rows. -/
def lacksRows (o : Options) (t : Tree) (ym : ℕ × ℕ) : Bool :=
  !(monthsWithData t).contains ym ||
    decide ((((rowsPerMonth t).get? ym).getD 0 : ℤ) < o.minRowsThreshold)

/-- `_months_to_repair`. -/
def monthsToRepair (o : Options) (t : Tree) : List (ℕ × ℕ) :=
  if t.rootExists then ((candidates o).filter (lacksRows o t)).insertionSort MonthLe
  else candidates o

/-! ### A month -/

/-- The row of a candle. -/
def candleRow (c : Candle) : OhlcvRow :=
  ⟨c.timestamp.wall / 1000000, c.ohlcv.open_, c.ohlcv.high, c.ohlcv.low, c.ohlcv.close,
    c.ohlcv.volume⟩

/-- `_raw_to_candles`; nothing if a candle is refused. -/
def rawToCandles (raw : List M1Row) : Option (List Candle) := raw.mapM toCandle

/-- Why a month was not repaired. -/
inductive RepairError
  | noRows
  | notWritten
  | raised
  deriving DecidableEq

inductive Status
  | skip
  | fail (error : RepairError)
  | repaired
  deriving DecidableEq

/-- What the feed answers for a month; nothing if it raises. -/
abbrev Source := ℕ × ℕ → Option (List M1Row)

/-- A file of a directory that exists then. -/
def Tree.written (store : HistoricalParquet) : Tree := ⟨store, true, Bool.noConfusion⟩

/-- What is done for a month: its status, its rows, and the files. -/
def repairMonth (source : Source) (t : Tree) (ym : ℕ × ℕ) (rowsBefore : ℕ) : Status × ℕ × Tree :=
  match source ym with
  | none => (.fail .raised, rowsBefore, t)
  | some raw =>
      if raw = [] then (.fail .noRows, rowsBefore, t)
      else
        match rawToCandles raw with
        | none => (.fail .raised, rowsBefore, t)
        | some candles =>
            if candles = [] then (.fail .notWritten, rowsBefore, t)
            else
              match t.store.writeMonth ym (candles.map candleRow) with
              | none => (.fail .raised, rowsBefore, t)
              | some store => (.repaired, candles.length, .written store)

/-! ### A repair -/

/-- What is reported of a month. -/
structure Entry where
  month : ℕ × ℕ
  rowsBefore : ℕ
  rowsAfter : ℕ
  status : Status
  deriving DecidableEq

/-- A repair on its way. -/
structure Repairing where
  tree : Tree
  rowsByMonth : Dict (ℕ × ℕ) ℕ
  processed : List Entry := []
  repairedCount : ℕ := 0
  failedCount : ℕ := 0

/-- The loop's body. -/
def Repairing.step (o : Options) (source : Source) (s : Repairing) (ym : ℕ × ℕ) : Repairing :=
  let rowsBefore := (s.rowsByMonth.get? ym).getD 0
  if o.dryRun then
    { s with processed := s.processed ++ [⟨ym, rowsBefore, rowsBefore, .skip⟩] }
  else
    match repairMonth source s.tree ym rowsBefore with
    | (.repaired, rowsAfter, tree) =>
        { tree := tree
          rowsByMonth := s.rowsByMonth.set ym rowsAfter
          processed := s.processed ++ [⟨ym, rowsBefore, rowsAfter, .repaired⟩]
          repairedCount := s.repairedCount + 1
          failedCount := s.failedCount }
    | (status, rowsAfter, tree) =>
        { s with
          tree := tree
          processed := s.processed ++ [⟨ym, rowsBefore, rowsAfter, status⟩]
          failedCount := s.failedCount + 1 }

/-- What a repair reports. -/
structure Report where
  monthsToRepair : List (ℕ × ℕ)
  processed : List Entry
  repairedCount : ℕ
  failedCount : ℕ
  spotCheckSample : List ((ℕ × ℕ) × OhlcvRow)

/-- The rows of a month, if there is a file. -/
def readMonth (t : Tree) (ym : ℕ × ℕ) : List OhlcvRow :=
  ((t.store.files.get? ym).getD none).getD []

/-- A row from the middle of each of the first two months that were repaired, if there are two. -/
def spotCheck (t : Tree) (processed : List Entry) : List ((ℕ × ℕ) × OhlcvRow) :=
  let repaired := processed.filter fun e => e.status = .repaired
  if 2 ≤ repaired.length then
    (repaired.take 2).filterMap fun e =>
      let rows := readMonth t e.month
      (rows[rows.length / 2]?).map fun row => (e.month, row)
  else []

/-- A rebuild of the index changes no file. -/
theorem Tree.noFiles_rebuild (t : Tree) :
    t.rootExists = false → (t.store.rebuild "1m").store.files = Dict.empty := fun h =>
  (t.store.files_rebuild "1m").trans (t.noFiles h)

/-- A rebuild of the index. -/
def Tree.rebuild (t : Tree) : Tree :=
  ⟨(t.store.rebuild "1m").store, t.rootExists, t.noFiles_rebuild⟩

/-- The months of a repair, one after the other. -/
def repairing (o : Options) (source : Source) (t : Tree) : Repairing :=
  (monthsToRepair o t).foldl (Repairing.step o source) { tree := t, rowsByMonth := rowsPerMonth t }

/-- A repair, with its report. -/
def runRepair (o : Options) (source : Source) (t : Tree) : Report × Tree :=
  let s := repairing o source t
  let rebuilt := o.dryRun = false ∧ 0 < s.repairedCount
  ({ monthsToRepair := monthsToRepair o t
     processed := s.processed
     repairedCount := s.repairedCount
     failedCount := s.failedCount
     spotCheckSample := if rebuilt then spotCheck s.tree.rebuild s.processed else [] },
    if rebuilt then s.tree.rebuild else s.tree)

/-! ### What the feed gives -/

/-- The rows that the feed gives for a month, if they can be written. -/
def obtained (source : Source) (ym : ℕ × ℕ) : Option (List OhlcvRow) :=
  (source ym).bind fun raw =>
    if raw = [] then none
    else (rawToCandles raw).bind fun candles =>
      if HistoricalParquet.validateCandles (candles.map candleRow) then some (candles.map candleRow)
      else none

variable {o : Options} {source : Source} {t : Tree} {ym : ℕ × ℕ} {rows : List OhlcvRow}

theorem rawToCandles_ne_nil {raw : List M1Row} {candles : List Candle} (hraw : raw ≠ [])
    (h : rawToCandles raw = some candles) : candles ≠ [] := by
  rintro rfl
  cases raw with
  | nil => exact hraw rfl
  | cons r raw =>
      rw [rawToCandles, List.mapM_cons] at h
      obtain ⟨candle, -, h⟩ := Option.bind_eq_some_iff.1 h
      obtain ⟨candles, -, h⟩ := Option.bind_eq_some_iff.1 h
      cases h

/-- A month for which rows come is written. -/
theorem repairMonth_some (h : obtained source ym = some rows) (rowsBefore : ℕ) :
    rows ≠ [] ∧ repairMonth source t ym rowsBefore =
      (.repaired, rows.length,
        .written { t.store with files := t.store.files.set ym (some rows) }) := by
  rw [obtained, Option.bind_eq_some_iff] at h
  obtain ⟨raw, hraw, h⟩ := h
  split at h
  · cases h
  · rename_i hne
    obtain ⟨candles, hcandles, h⟩ := Option.bind_eq_some_iff.1 h
    split at h
    · rename_i hvalid
      obtain rfl := Option.some.inj h
      have hcandlesNe := rawToCandles_ne_nil hne hcandles
      have hrowsNe : candles.map candleRow ≠ [] := mt List.map_eq_nil_iff.1 hcandlesNe
      refine ⟨hrowsNe, ?_⟩
      rw [repairMonth, hraw]
      dsimp only
      rw [if_neg hne, hcandles]
      dsimp only
      rw [if_neg hcandlesNe, HistoricalParquet.writeMonth, if_neg hrowsNe, if_pos hvalid,
        List.length_map]
    · cases h

/-- A month for which none come is left alone. -/
theorem repairMonth_none (h : obtained source ym = none) (rowsBefore : ℕ) :
    ∃ error, repairMonth source t ym rowsBefore = (.fail error, rowsBefore, t) := by
  rw [repairMonth]
  cases hraw : source ym with
  | none => exact ⟨.raised, rfl⟩
  | some raw =>
      rw [obtained, hraw, Option.bind_some] at h
      dsimp only
      split
      · exact ⟨.noRows, rfl⟩
      · rename_i hne
        rw [if_neg hne] at h
        cases hcandles : rawToCandles raw with
        | none => exact ⟨.raised, rfl⟩
        | some candles =>
            rw [hcandles, Option.bind_some] at h
            dsimp only
            split
            · exact ⟨.notWritten, rfl⟩
            · rename_i hcandlesNe
              have hrowsNe : candles.map candleRow ≠ [] := mt List.map_eq_nil_iff.1 hcandlesNe
              split at h
              · cases h
              · rename_i hinvalid
                rw [HistoricalParquet.writeMonth, if_neg hrowsNe, if_neg hinvalid]
                exact ⟨.raised, rfl⟩

/-! ### A whole repair -/

/-- The files after a repair of some months. -/
def filesAfter (source : Source) (files : Dict (ℕ × ℕ) ParquetFile) (months : List (ℕ × ℕ)) :
    Dict (ℕ × ℕ) ParquetFile :=
  months.foldl
    (fun files ym =>
      match obtained source ym with
      | some rows => files.set ym (some rows)
      | none => files)
    files

/-- A month of the repair has the rows that came for it, if some did; any other month has the file
that it had. -/
theorem get?_filesAfter (source : Source) (files : Dict (ℕ × ℕ) ParquetFile)
    (months : List (ℕ × ℕ)) (ym : ℕ × ℕ) :
    (filesAfter source files months).get? ym =
      if ym ∈ months ∧ (obtained source ym).isSome then some (obtained source ym)
      else files.get? ym := by
  rw [filesAfter]
  induction months generalizing files with
  | nil => simp
  | cons first months ih =>
      rw [List.foldl_cons, ih]
      cases hobtained : obtained source ym with
      | none =>
          simp only [Option.isSome_none, and_false, Bool.false_eq_true, if_false]
          cases hfirst : obtained source first with
          | none => rfl
          | some rows =>
              refine Dict.get?_set_of_ne _ _ ?_
              rintro rfl
              rw [hobtained] at hfirst
              cases hfirst
      | some rows =>
          by_cases hmem : ym ∈ months
          · simp [hmem]
          · by_cases heq : ym = first
            · subst heq
              simp [hmem, hobtained]
            · cases obtained source first with
              | none => simp [hmem, heq]
              | some rows => simp [hmem, heq, Dict.get?_set_of_ne]

/-- What the loop does: the index stays, the files are those that came, and every month is counted.
-/
structure Repaired (source : Source) (t : Tree) (months : List (ℕ × ℕ)) (s : Repairing) : Prop where
  files : s.tree.store.files = filesAfter source t.store.files months
  index : s.tree.store.index = t.store.index
  root : s.tree.rootExists = (t.rootExists || months.any fun ym => (obtained source ym).isSome)
  processed : s.processed.map Entry.month = months
  status : ∀ e ∈ s.processed, e.status = .repaired ↔ (obtained source e.month).isSome
  repaired : s.repairedCount = months.countP fun ym => (obtained source ym).isSome
  failed : s.repairedCount + s.failedCount = months.length

theorem Repaired.step {months : List (ℕ × ℕ)} {s : Repairing} (h : Repaired source t months s)
    (hfix : o.dryRun = false) (ym : ℕ × ℕ) :
    Repaired source t (months ++ [ym]) (s.step o source ym) := by
  have hprocessed := h.processed
  have hrepaired := h.repaired
  have hfailed := h.failed
  rw [Repairing.step, if_neg (by rw [hfix]; exact Bool.false_ne_true)]
  generalize (s.rowsByMonth.get? ym).getD 0 = rowsBefore
  cases hobtained : obtained source ym with
  | none =>
      obtain ⟨error, hmonth⟩ := repairMonth_none (t := s.tree) hobtained rowsBefore
      rw [hmonth]
      refine ⟨?_, h.index, ?_, ?_, ?_, ?_, ?_⟩
      · rw [filesAfter, List.foldl_append, List.foldl_cons, List.foldl_nil, hobtained]
        exact h.files
      · rw [List.any_append, List.any_cons, hobtained]
        simpa using h.root
      · simp [hprocessed]
      · intro e he
        rcases List.mem_append.1 he with he | he
        · exact h.status e he
        · obtain rfl := List.mem_singleton.1 he
          simp [hobtained]
      · simp [hobtained, hrepaired]
      · simp only [List.length_append, List.length_singleton]
        omega
  | some rows =>
      obtain ⟨-, hmonth⟩ := repairMonth_some (t := s.tree) hobtained rowsBefore
      rw [hmonth]
      refine ⟨?_, h.index, ?_, ?_, ?_, ?_, ?_⟩
      · rw [filesAfter, List.foldl_append, List.foldl_cons, List.foldl_nil, hobtained, ← filesAfter,
          ← h.files]
        rfl
      · simp [Tree.written, hobtained]
      · simp [hprocessed]
      · intro e he
        rcases List.mem_append.1 he with he | he
        · exact h.status e he
        · obtain rfl := List.mem_singleton.1 he
          simp [hobtained]
      · simp [hobtained, hrepaired]
      · simp only [List.length_append, List.length_singleton]
        omega

theorem repaired_repairing (hfix : o.dryRun = false) (source : Source) (t : Tree) :
    Repaired source t (monthsToRepair o t) (repairing o source t) := by
  rw [repairing]
  induction monthsToRepair o t using List.reverseRecOn with
  | nil => exact ⟨rfl, rfl, by simp, rfl, fun e he => (by cases he), rfl, rfl⟩
  | append_singleton months ym ih =>
      rw [List.foldl_append, List.foldl_cons, List.foldl_nil]
      exact ih.step hfix ym

/-! ### Which months lack rows -/

theorem get?_rowsPerMonth (t : Tree) (ym : ℕ × ℕ) :
    (rowsPerMonth t).get? ym = ((t.store.files.get? ym).getD none).map List.length := by
  have hkeys : ∀ l : List ((ℕ × ℕ) × ParquetFile),
      ((l.filterMap fun p => p.2.map fun rows => (p.1, rows.length)).map Prod.fst).Sublist
        (l.map Prod.fst) := by
    intro l
    induction l with
    | nil => exact List.Sublist.refl _
    | cons p l ih =>
        obtain ⟨ym, file⟩ := p
        cases file with
        | none => exact ih.cons ym
        | some rows => exact ih.cons_cons ym
  have hnodup := (hkeys t.store.files.entries).nodup t.store.files.nodup
  refine Option.ext fun n => ?_
  rw [rowsPerMonth, Dict.get?_setAll, Dict.get?_empty, Option.or_none,
    Dict.lookup_of_perm (List.reverse_perm _) hnodup, Dict.lookup_eq_some_iff_mem hnodup,
    List.mem_filterMap]
  constructor
  · rintro ⟨⟨ym', file⟩, hmem, hfile⟩
    obtain ⟨rows, hrows, heq⟩ := Option.map_eq_some_iff.1 hfile
    obtain ⟨rfl, rfl⟩ := Prod.mk.inj heq
    dsimp only at hrows
    rw [Dict.get?_eq_some_iff.2 hmem, Option.getD_some, hrows]
    rfl
  · intro hn
    obtain ⟨rows, hrows, rfl⟩ := Option.map_eq_some_iff.1 hn
    cases hfile : t.store.files.get? ym with
    | none =>
        rw [hfile] at hrows
        cases hrows
    | some file =>
        rw [hfile, Option.getD_some] at hrows
        subst hrows
        exact ⟨_, Dict.get?_eq_some_iff.1 hfile, rfl⟩

theorem getD_rowsPerMonth (t : Tree) (ym : ℕ × ℕ) :
    ((rowsPerMonth t).get? ym).getD 0 = (readMonth t ym).length := by
  rw [get?_rowsPerMonth, readMonth]
  cases (t.store.files.get? ym).getD none <;> rfl

/-- A month lacks rows if its file has none, or fewer than the threshold. -/
theorem lacksRows_iff (o : Options) (t : Tree) (ym : ℕ × ℕ) :
    lacksRows o t ym = true ↔
      readMonth t ym = [] ∨ ((readMonth t ym).length : ℤ) < o.minRowsThreshold := by
  have hdata : ym ∈ monthsWithData t ↔ readMonth t ym ≠ [] := by
    rw [monthsWithData, List.mem_map]
    constructor
    · rintro ⟨⟨ym', file⟩, hmem, rfl⟩
      obtain ⟨hmem, hlength⟩ := List.mem_filter.1 hmem
      rw [readMonth, Dict.get?_eq_some_iff.2 hmem, Option.getD_some]
      exact List.ne_nil_of_length_pos (of_decide_eq_true hlength)
    · intro hne
      cases hfile : t.store.files.get? ym with
      | none =>
          rw [readMonth, hfile] at hne
          exact absurd rfl hne
      | some file =>
          rw [readMonth, hfile, Option.getD_some] at hne
          exact ⟨_, List.mem_filter.2 ⟨Dict.get?_eq_some_iff.1 hfile,
            decide_eq_true (List.length_pos_of_ne_nil hne)⟩, rfl⟩
  rw [lacksRows, Bool.or_eq_true, Bool.not_eq_true', ← Bool.not_eq_true, List.contains_iff_mem, hdata,
    not_not, decide_eq_true_eq, getD_rowsPerMonth]

/-- The months to repair are those of the candidates that lack rows; without a directory they all
do. -/
theorem perm_monthsToRepair (o : Options) (t : Tree) :
    (monthsToRepair o t).Perm ((candidates o).filter (lacksRows o t)) := by
  rw [monthsToRepair]
  split
  · exact List.perm_insertionSort _ _
  · rename_i hroot
    have hall : ∀ ym ∈ candidates o, lacksRows o t ym = true := by
      intro ym _
      rw [lacksRows_iff, readMonth, t.noFiles (Bool.eq_false_iff.2 hroot)]
      exact .inl rfl
    rw [List.filter_eq_self.2 hall]

theorem mem_monthsToRepair {o : Options} {t : Tree} {ym : ℕ × ℕ} :
    ym ∈ monthsToRepair o t ↔ ym ∈ candidates o ∧ lacksRows o t ym = true :=
  (perm_monthsToRepair o t).mem_iff.trans List.mem_filter

/-! ### The repair -/

/-- What a dry run does: nothing, and every month is reported with the rows that it has. -/
theorem runRepair_dry (hdry : o.dryRun = true) (source : Source) (t : Tree) :
    (runRepair o source t).2 = t ∧
      (runRepair o source t).1.processed = (monthsToRepair o t).map fun ym =>
        ⟨ym, (readMonth t ym).length, (readMonth t ym).length, .skip⟩ := by
  have hloop : ∀ months : List (ℕ × ℕ), months.foldl (Repairing.step o source)
      { tree := t, rowsByMonth := rowsPerMonth t } =
        { tree := t
          rowsByMonth := rowsPerMonth t
          processed := months.map fun ym =>
            ⟨ym, (readMonth t ym).length, (readMonth t ym).length, .skip⟩ } := by
    intro months
    induction months using List.reverseRecOn with
    | nil => rfl
    | append_singleton months ym ih =>
        rw [List.foldl_append, ih, List.foldl_cons, List.foldl_nil, Repairing.step, if_pos hdry]
        simp only [getD_rowsPerMonth, List.map_append, List.map_cons, List.map_nil]
  rw [runRepair, repairing, hloop]
  dsimp only
  rw [if_neg (by simp [hdry])]
  exact ⟨rfl, rfl⟩

/-- What a repair leaves and reports. -/
structure RepairSpec (o : Options) (source : Source) (t : Tree) (r : Report × Tree) : Prop where
  processed : r.1.processed.map Entry.month = monthsToRepair o t
  repaired : r.1.repairedCount = (monthsToRepair o t).countP fun ym => (obtained source ym).isSome
  failed : r.1.repairedCount + r.1.failedCount = (monthsToRepair o t).length
  files : ∀ ym, r.2.store.files.get? ym =
    if ym ∈ monthsToRepair o t ∧ (obtained source ym).isSome then some (obtained source ym)
    else t.store.files.get? ym
  marks : ∀ ym, r.2.store.getMonth ym =
    if 0 < r.1.repairedCount then (r.2.store.files.get? ym).map HistoricalParquet.monthInfo
    else t.store.getMonth ym

/-- A repair writes what comes for the months that it lists and touches no other file; it reports
every month once; and if it wrote a month, the index says what the files do. -/
theorem runRepair_spec (hfix : o.dryRun = false) (source : Source) (t : Tree) :
    RepairSpec o source t (runRepair o source t) := by
  have hrepaired := repaired_repairing hfix source t
  have hfiles : (runRepair o source t).2.store.files =
      filesAfter source t.store.files (monthsToRepair o t) := by
    rw [runRepair]
    dsimp only
    split
    · exact (HistoricalParquet.files_rebuild _ _).trans hrepaired.files
    · exact hrepaired.files
  refine ⟨hrepaired.processed, hrepaired.repaired, hrepaired.failed, fun ym => ?_, fun ym => ?_⟩
  · rw [hfiles, get?_filesAfter]
  · rw [hfiles, ← hrepaired.files]
    change (runRepair o source t).2.store.getMonth ym = if 0 < (repairing o source t).repairedCount then
      _ else _
    rw [runRepair]
    dsimp only
    by_cases hcount : 0 < (repairing o source t).repairedCount
    · rw [if_pos ⟨hfix, hcount⟩, if_pos hcount]
      exact HistoricalParquet.getMonth_rebuild _ ym
    · rw [if_neg (fun h => hcount h.2), if_neg hcount, HistoricalParquet.getMonth,
        HistoricalParquet.marks, hrepaired.index]
      rfl

/-- The rows of a month after a repair. -/
theorem RepairSpec.readMonth {r : Report × Tree} (h : RepairSpec o source t r) (ym : ℕ × ℕ) :
    readMonth r.2 ym =
      if ym ∈ monthsToRepair o t then (obtained source ym).getD (MonthRepair.readMonth t ym)
      else MonthRepair.readMonth t ym := by
  rw [MonthRepair.readMonth, h.files]
  cases hobtained : obtained source ym with
  | none => simp [MonthRepair.readMonth]
  | some rows =>
      split_ifs with hmem hlisted
      · rfl
      · exact absurd hmem.1 hlisted
      · exact absurd ⟨‹_›, rfl⟩ hmem
      · rfl

/-- What comes for a month has fewer rows than the threshold, or nothing comes. -/
def stillShort (o : Options) (source : Source) (ym : ℕ × ℕ) : Bool :=
  match obtained source ym with
  | none => true
  | some rows => (rows.length : ℤ) < o.minRowsThreshold

/-- After a repair a month lacks rows if it did and what comes for it is too short. -/
theorem RepairSpec.lacksRows {r : Report × Tree} (h : RepairSpec o source t r) {ym : ℕ × ℕ}
    (hym : ym ∈ candidates o) :
    lacksRows o r.2 ym = (MonthRepair.lacksRows o t ym && stillShort o source ym) := by
  rw [Bool.eq_iff_iff, Bool.and_eq_true, lacksRows_iff, h.readMonth, stillShort]
  cases hlacks : MonthRepair.lacksRows o t ym with
  | false =>
      have hlisted : ym ∉ monthsToRepair o t := fun hmem => by
        rw [(mem_monthsToRepair.1 hmem).2] at hlacks
        cases hlacks
      rw [if_neg hlisted, ← lacksRows_iff, hlacks]
      simp
  | true =>
      rw [if_pos (mem_monthsToRepair.2 ⟨hym, hlacks⟩)]
      cases hobtained : obtained source ym with
      | none =>
          rw [Option.getD_none, ← lacksRows_iff, hlacks]
          simp
      | some rows =>
          have hne := (repairMonth_some (t := t) hobtained 0).1
          simp [hne]

/-- A second repair lists the months of the first for which what comes is too short, and no others;
it leaves every file as it is, and what the index has of it: status, rows and coverage. -/
theorem runRepair_again (hfix : o.dryRun = false) (source : Source) (t : Tree) :
    let t' := (runRepair o source t).2
    (monthsToRepair o t').Perm ((monthsToRepair o t).filter (stillShort o source)) ∧
      (∀ ym, (runRepair o source t').2.store.files.get? ym = t'.store.files.get? ym) ∧
      ∀ ym, (runRepair o source t').2.store.getMonth ym = t'.store.getMonth ym := by
  have hfirst := runRepair_spec hfix source t
  have hsecond := runRepair_spec hfix source (runRepair o source t).2
  generalize (runRepair o source t) = first at hfirst hsecond
  obtain ⟨report, t'⟩ := first
  dsimp only at hfirst hsecond ⊢
  have hlisted : (monthsToRepair o t').Perm ((monthsToRepair o t).filter (stillShort o source)) := by
    refine (perm_monthsToRepair o t').trans ?_
    refine List.Perm.trans ?_ ((perm_monthsToRepair o t).filter _).symm
    rw [List.filter_filter]
    refine List.Perm.of_eq (List.filter_congr fun ym hym => ?_)
    rw [hfirst.lacksRows hym, Bool.and_comm]
  have hfiles : ∀ ym, (runRepair o source t').2.store.files.get? ym = t'.store.files.get? ym := by
    intro ym
    rw [hsecond.files]
    split
    · rename_i hmem
      have hbefore := (List.mem_filter.1 (hlisted.mem_iff.1 hmem.1)).1
      rw [hfirst.files, if_pos ⟨hbefore, hmem.2⟩]
    · rfl
  refine ⟨hlisted, hfiles, fun ym => ?_⟩
  rw [hsecond.marks, hfiles]
  split
  · rename_i hcount
    -- what the second repair wrote the first one had written
    rw [hsecond.repaired, List.countP_pos_iff] at hcount
    obtain ⟨ym', hmem, hsome⟩ := hcount
    have hbefore := (List.mem_filter.1 (hlisted.mem_iff.1 hmem)).1
    have hcount' : 0 < report.repairedCount := by
      rw [hfirst.repaired, List.countP_pos_iff]
      exact ⟨ym', hbefore, hsome⟩
    rw [hfirst.marks, if_pos hcount']
  · rfl

/-- No file was written yet. -/
def noFile : Tree := ⟨⟨Dict.empty, none⟩, false, fun _ => rfl⟩

/-- January 2024 is to be repaired. -/
def january : Options where
  dryRun := false
  months := some [(2024, 1)]

/-- A day of January with one candle, for whatever month. -/
def oneCandle : Source := fun _ => some [⟨1704189600, 1, 1, 1, 1, 0⟩]

theorem runRepair_again_january :
    let t' := (runRepair january oneCandle noFile).2
    (monthsToRepair january t').Perm ((monthsToRepair january noFile).filter
        (stillShort january oneCandle)) ∧
      (∀ ym, (runRepair january oneCandle t').2.store.files.get? ym = t'.store.files.get? ym) ∧
      ∀ ym, (runRepair january oneCandle t').2.store.getMonth ym = t'.store.getMonth ym :=
  runRepair_again rfl oneCandle noFile

/-! ### The months of a feed -/

open Bi5Range StableSort

/-- `fetch_m1_month`; nothing if a date is not written with four digits, or is not of the calendar.
-/
def fetchM1Month (feed : Feed) (scale : ℚ) : Source := fun ym =>
  if 1000 ≤ ym.1 ∧ 1 ≤ ym.2 ∧ ym.2 ≤ 12 ∧ 12 * ym.1 + ym.2 < 120000 then
    some (fetchM1Range feed scale (daysBefore ((12 * ym.1 + ym.2 : ℕ) - 1))
      (daysBefore (12 * ym.1 + ym.2 : ℕ)))
  else none

/-- The row that is written for a candle of the feed. -/
def rawRow (r : M1Row) : OhlcvRow :=
  ⟨r.tsUtc, r.open_, max (max r.open_ r.high) r.close, min (min r.open_ r.low) r.close, r.close,
    r.vol⟩

/-- The candles of the feed for the days of a month. -/
structure OfMonth (feed : Feed) (scale : ℚ) (ym : ℕ × ℕ) (rows : List OhlcvRow) : Prop where
  sorted : (rows.map OhlcvRow.ts).Pairwise (· < ·)
  mem : ∀ row, row ∈ rows ↔ ∃ day r, daysBefore ((12 * ym.1 + ym.2 : ℕ) - 1) ≤ day ∧
    day < daysBefore (12 * ym.1 + ym.2 : ℕ) ∧ r ∈ fetchM1Day feed scale day ∧ row = rawRow r

variable {feed : Feed} {scale : ℚ}

theorem candleRow_of_isCandleOf {r : M1Row} {c : Candle} (h : IsCandleOf r c) :
    candleRow c = rawRow r := by
  have hwall : c.timestamp.wall = 1000000 * r.tsUtc := (utcFromTimestamp_eq_some h.timestamp).2.1
  have hopen := congrArg PriceBar.open_ h.bar
  have hhigh := congrArg PriceBar.high h.bar
  have hlow := congrArg PriceBar.low h.bar
  have hclose := congrArg PriceBar.close h.bar
  have hvolume := h.volume
  simp only [Ohlcv.bar] at hopen hhigh hlow hclose
  rw [candleRow, rawRow, hwall, hopen, hhigh, hlow, hclose, hvolume,
    Int.mul_ediv_cancel_left _ (by decide)]

/-- A row of the calendar whose volume is not negative has a candle. -/
theorem exists_isCandleOf {r : M1Row}
    (hcal : monthStart 12 ≤ r.instant ∧ r.instant < monthStart 120000)
    (hvol : 0 ≤ r.vol) : ∃ c, IsCandleOf r c := by
  obtain ⟨v, hv⟩ : ∃ v, Ohlcv.new?
      ⟨r.open_, max (max r.open_ r.high) r.close, min (min r.open_ r.low) r.close, r.close⟩ r.vol =
        some v :=
    ⟨_, dif_pos ⟨(min_le_right _ _).trans (le_max_right _ _),
      ⟨(min_le_left _ _).trans (min_le_left _ _), (le_max_left _ _).trans (le_max_left _ _)⟩,
      ⟨min_le_right _ _, le_max_right _ _⟩, hvol⟩⟩
  exact ⟨⟨_, v, true⟩, dif_pos hcal, (Ohlcv.new?_eq_some hv).1, (Ohlcv.new?_eq_some hv).2, rfl⟩

/-- Rows that all have candles are written as they are. -/
theorem rawToCandles_eq {raw : List M1Row} (h : ∀ r ∈ raw, ∃ c, IsCandleOf r c) :
    ∃ candles, rawToCandles raw = some candles ∧ candles.map candleRow = raw.map rawRow := by
  induction raw with
  | nil => exact ⟨[], rfl, rfl⟩
  | cons r raw ih =>
      obtain ⟨c, hc⟩ := h r List.mem_cons_self
      obtain ⟨candles, hcandles, hrows⟩ := ih fun r' hr' => h r' (List.mem_cons_of_mem r hr')
      rw [rawToCandles] at hcandles
      refine ⟨c :: candles, ?_, ?_⟩
      · rw [rawToCandles, List.mapM_cons, toCandle_eq_some_iff.2 hc, hcandles]
        rfl
      · rw [List.map_cons, List.map_cons, candleRow_of_isCandleOf hc, hrows]

/-- The candles of some days are at different seconds, if those of every day are. -/
theorem nodup_m1Days (h : InDays feed scale)
    (hdays : ∀ day, ((fetchM1Day feed scale day).map M1Row.tsUtc).Nodup) (n : ℕ) (current : ℤ) :
    ((m1Days feed scale n current).map M1Row.tsUtc).Nodup := by
  induction n generalizing current with
  | zero => exact List.nodup_nil
  | succ n ih =>
      rw [m1Days, List.map_append, List.nodup_append]
      refine ⟨hdays current, ih (current + 1), fun ts hts ts' hts' heq => ?_⟩
      obtain ⟨r, hr, rfl⟩ := List.mem_map.1 hts
      obtain ⟨r', hr', rfl⟩ := List.mem_map.1 hts'
      have hday := h.day current r hr
      have hday' := ((mem_m1Days h).1 hr').1
      rw [M1Row.day, ← heq] at hday'
      rw [M1Row.day] at hday
      omega

/-- The rows of a month of the calendar, in order. -/
theorem sorted_fetchM1Range (h : InDays feed scale)
    (hdays : ∀ day, ((fetchM1Day feed scale day).map M1Row.tsUtc).Nodup) (from_ to_ : ℤ) :
    ((fetchM1Range feed scale from_ to_).map M1Row.tsUtc).Pairwise (· < ·) := by
  have hnodup : ((fetchM1Range feed scale from_ to_).map M1Row.tsUtc).Nodup :=
    ((sortBy_perm _).map M1Row.tsUtc).nodup_iff.2 (nodup_m1Days h hdays _ _)
  have hle : ((fetchM1Range feed scale from_ to_).map M1Row.tsUtc).Pairwise (· ≤ ·) :=
    List.pairwise_map.2 (pairwise_sortBy _)
  exact (hle.and hnodup).imp fun hlt => lt_of_le_of_ne hlt.1 hlt.2

/-- A month has candles in the feed. -/
def HasCandles (feed : Feed) (scale : ℚ) (ym : ℕ × ℕ) : Prop :=
  ∃ day r, daysBefore ((12 * ym.1 + ym.2 : ℕ) - 1) ≤ day ∧
    day < daysBefore (12 * ym.1 + ym.2 : ℕ) ∧ r ∈ fetchM1Day feed scale day

/-- What a feed gives for a month of the calendar: its candles, if there are some. -/
theorem obtained_fetchM1Month (h : InDays feed scale)
    (hdays : ∀ day, ((fetchM1Day feed scale day).map M1Row.tsUtc).Nodup) {ym : ℕ × ℕ}
    (hyear : 1000 ≤ ym.1 ∧ ym.1 < 9999) (hmonth : 1 ≤ ym.2 ∧ ym.2 ≤ 12) :
    (HasCandles feed scale ym →
        ∃ rows, obtained (fetchM1Month feed scale) ym = some rows ∧ OfMonth feed scale ym rows) ∧
      (¬ HasCandles feed scale ym → obtained (fetchM1Month feed scale) ym = none) := by
  have hvalid : 1000 ≤ ym.1 ∧ 1 ≤ ym.2 ∧ ym.2 ≤ 12 ∧ 12 * ym.1 + ym.2 < 120000 := by omega
  have hsource : fetchM1Month feed scale ym = some (fetchM1Range feed scale
      (daysBefore ((12 * ym.1 + ym.2 : ℕ) - 1)) (daysBefore (12 * ym.1 + ym.2 : ℕ))) := if_pos hvalid
  have hmono : daysBefore ((12 * ym.1 + ym.2 : ℕ) - 1) < daysBefore (12 * ym.1 + ym.2 : ℕ) :=
    daysBefore_strictMono (by omega)
  have hfirst : daysBefore 12 < daysBefore ((12 * ym.1 + ym.2 : ℕ) - 1) :=
    daysBefore_strictMono (by omega)
  have hlast : daysBefore (12 * ym.1 + ym.2 : ℕ) < daysBefore 120000 :=
    daysBefore_strictMono (by omega)
  have hmem : ∀ r, r ∈ fetchM1Range feed scale (daysBefore ((12 * ym.1 + ym.2 : ℕ) - 1))
      (daysBefore (12 * ym.1 + ym.2 : ℕ)) ↔
        (daysBefore ((12 * ym.1 + ym.2 : ℕ) - 1) ≤ r.day ∧ r.day < daysBefore (12 * ym.1 + ym.2 : ℕ)) ∧
          r ∈ fetchM1Day feed scale r.day := by
    intro r
    rw [fetchM1Range, mem_sortBy, mem_m1Days h, Int.toNat_of_nonneg (by omega)]
    simp only [add_sub_cancel]
  have hsorted := sorted_fetchM1Range h hdays (daysBefore ((12 * ym.1 + ym.2 : ℕ) - 1))
    (daysBefore (12 * ym.1 + ym.2 : ℕ))
  generalize fetchM1Range feed scale (daysBefore ((12 * ym.1 + ym.2 : ℕ) - 1))
    (daysBefore (12 * ym.1 + ym.2 : ℕ)) = raw at hsource hmem hsorted
  have hts : raw.map (OhlcvRow.ts ∘ rawRow) = raw.map M1Row.tsUtc := rfl
  constructor
  · rintro ⟨day, r, hlow, hhigh, hr⟩
    obtain rfl := h.day day r hr
    have hne : raw ≠ [] := List.ne_nil_of_mem ((hmem r).2 ⟨⟨hlow, hhigh⟩, hr⟩)
    obtain ⟨candles, hcandles, hrows⟩ := rawToCandles_eq fun r' hr' => by
      obtain ⟨hday, hin⟩ := (hmem r').1 hr'
      refine exists_isCandleOf ?_ (h.vol _ r' hin)
      simp only [monthStart, M1Row.instant, M1Row.day, dayMicros] at hday ⊢
      omega
    have hvalidated : HistoricalParquet.validateCandles (raw.map rawRow) = true := by
      rw [HistoricalParquet.validateCandles, List.map_map, hts, decide_eq_true_eq]
      exact ⟨hsorted.imp fun hlt => hlt.ne, hsorted.isChain⟩
    refine ⟨raw.map rawRow, ?_, ?_, fun row => ?_⟩
    · rw [obtained, hsource, Option.bind_some, if_neg hne, hcandles, Option.bind_some, hrows,
        if_pos hvalidated]
    · rw [List.map_map, hts]
      exact hsorted
    · rw [List.mem_map]
      constructor
      · rintro ⟨r', hr', rfl⟩
        obtain ⟨hday, hin⟩ := (hmem r').1 hr'
        exact ⟨_, r', hday.1, hday.2, hin, rfl⟩
      · rintro ⟨day, r', hlow', hhigh', hr', rfl⟩
        obtain rfl := h.day day r' hr'
        exact ⟨r', (hmem r').2 ⟨⟨hlow', hhigh'⟩, hr'⟩, rfl⟩
  · intro hnone
    have hnil : raw = [] := by
      refine List.eq_nil_iff_forall_not_mem.2 fun r hr => hnone ?_
      obtain ⟨hday, hin⟩ := (hmem r).1 hr
      exact ⟨_, r, hday.1, hday.2, hin⟩
    rw [obtained, hsource, Option.bind_some, if_pos hnil]

theorem nodup_exampleFeed (day : ℤ) :
    ((fetchM1Day exampleFeed 100000 day).map M1Row.tsUtc).Nodup := by
  by_cases hday : day = 19724
  · subst hday
    decide +kernel
  · have hnil : fetchM1Day exampleFeed 100000 day = [] :=
      List.eq_nil_iff_forall_not_mem.2 fun r hr => hday (mem_exampleFeed.1 hr).1
    rw [hnil]
    exact List.nodup_nil

/-- With a feed whose files have the candles of their days, each at a second of its own, the file of
a month that is repaired has the candles of the days of the month, once each and in order; a month
of which the feed has none keeps its file. -/
theorem runRepair_feed (hfix : o.dryRun = false) (h : InDays feed scale)
    (hdays : ∀ day, ((fetchM1Day feed scale day).map M1Row.tsUtc).Nodup) (t : Tree) {ym : ℕ × ℕ}
    (hlisted : ym ∈ monthsToRepair o t) (hyear : 1000 ≤ ym.1 ∧ ym.1 < 9999)
    (hmonth : 1 ≤ ym.2 ∧ ym.2 ≤ 12) :
    (HasCandles feed scale ym →
        ∃ rows, (runRepair o (fetchM1Month feed scale) t).2.store.files.get? ym = some (some rows) ∧
          OfMonth feed scale ym rows) ∧
      (¬ HasCandles feed scale ym →
        (runRepair o (fetchM1Month feed scale) t).2.store.files.get? ym = t.store.files.get? ym) := by
  have hspec := runRepair_spec hfix (fetchM1Month feed scale) t
  obtain ⟨hsome, hnone⟩ := obtained_fetchM1Month h hdays hyear hmonth
  constructor
  · intro hcandles
    obtain ⟨rows, hobtained, hrows⟩ := hsome hcandles
    exact ⟨rows, by rw [hspec.files, hobtained, if_pos ⟨hlisted, rfl⟩], hrows⟩
  · intro hcandles
    rw [hspec.files, hnone hcandles, if_neg]
    rintro ⟨-, hfalse⟩
    cases hfalse

theorem runRepair_feed_january :
    (HasCandles exampleFeed 100000 (2024, 1) →
        ∃ rows, (runRepair january (fetchM1Month exampleFeed 100000) noFile).2.store.files.get?
            (2024, 1) = some (some rows) ∧ OfMonth exampleFeed 100000 (2024, 1) rows) ∧
      (¬ HasCandles exampleFeed 100000 (2024, 1) →
        (runRepair january (fetchM1Month exampleFeed 100000) noFile).2.store.files.get? (2024, 1) =
          noFile.store.files.get? (2024, 1)) :=
  runRepair_feed rfl inDays_exampleFeed nodup_exampleFeed noFile (by decide) (by decide) (by decide)

end MonthRepair
