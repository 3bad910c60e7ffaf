/-
**The backfill of the history, month by month.**

The backfill goes through the months of a range.  A month that is done, or that has a file with
rows, is left alone; the others are asked for, with some attempts, and written.  The index of the
months is kept up by the way.  A run ends early if it has written as many months as it was asked
for, or if the rows of a month cannot be written.

A run that was stopped can be started again: it passes what is over, and goes on.

Main definitions:

* `HistoricalBackfill.fetchWithRetries` — the attempts at a month;
* `HistoricalBackfill.backfillMonth` — a month;
* `HistoricalBackfill.run` — a run, with what it counts.

Main results:

* `HistoricalBackfill.resumable` — a month that is over is passed without a change;
* `HistoricalBackfill.run_accounting` — every month of a range is counted once, and no file with
  rows is touched;
* `HistoricalBackfill.run_resume` — a run after others that were stopped ends like a run alone;
* `HistoricalBackfill.run_complete` — what the months are after a run.
-/

import Brokerage.CoverageRebuild
import Brokerage.Resuming

set_option relaxedAutoImplicit false
set_option autoImplicit false

namespace HistoricalParquet

/-- A month is marked as failed; what is known of its rows is kept. -/
def markFailed (d : HistoricalParquet) (ym : ℕ × ℕ) : HistoricalParquet :=
  match d.getMonth ym with
  | none => d.mark ym ⟨.failed, 0, 0, 0⟩
  | some entry => d.mark ym { entry with status := .failed }

/-- Marking a month from its rows. -/
def markRows (d : HistoricalParquet) (ym : ℕ × ℕ) : List OhlcvRow → HistoricalParquet
  | [] => d.markEmpty ym
  | row :: rows => d.markDone ym (rows.length + 1) row.ts (rows.getLastD row).ts

/-- Marking a month that has rows from its file. -/
def syncRows (d : HistoricalParquet) (ym : ℕ × ℕ) : List OhlcvRow → HistoricalParquet
  | [] => d
  | row :: rows => d.markRows ym (row :: rows)

def isDone (d : HistoricalParquet) (ym : ℕ × ℕ) : Bool := d.status ym = some .done

def isFailed (d : HistoricalParquet) (ym : ℕ × ℕ) : Bool := d.status ym = some .failed

/-- The rows of a month, if there is a file. -/
def readMonth (d : HistoricalParquet) (ym : ℕ × ℕ) : List OhlcvRow :=
  match d.files.get? ym with
  | some (some rows) => rows
  | _ => []

end HistoricalParquet

namespace HistoricalBackfill

/-! ### A month -/

/-- How a run is called.  Instead of a source it may be given the rows themselves. -/
structure Options where
  skipExisting : Bool := true
  dukascopyOverride : Option (List OhlcvRow) := none
  dryRun : Bool := false
  stopAfter : Option ℤ := none
  retries : ℕ := 3
  retryFailed : Bool := false
  updateCoverage : Bool := true

/-- What the source does when it is asked for a month for the first time, the second time and so on:
it answers with rows, or it raises. -/
abbrev Api := ℕ × ℕ → ℕ → Option (List OhlcvRow)

/-- The first attempt that does not raise, or nothing after all of them. -/
def fetchWithRetries (attempts : ℕ → Option (List OhlcvRow)) (retries : ℕ) : List OhlcvRow × ℕ :=
  ((List.range (retries + 1)).findSome? fun attempt =>
    (attempts attempt).map fun rows => (rows, attempt)).getD ([], retries)

/-- The start of a month, in seconds. -/
def monthSeconds (ym : ℕ × ℕ) : ℤ := monthStart (12 * ym.1 + ym.2 - 1) / 1000000

/-- The start of a month and its end, which is the start of the next one. -/
def monthStartEnd (ym : ℕ × ℕ) : ℤ × ℤ := (monthSeconds ym, monthSeconds (nextMonth ym))

/-- The rows for a month, and the number of the attempt. -/
def candlesOf (o : Options) (api : Api) (ym : ℕ × ℕ) : List OhlcvRow × ℕ :=
  match o.dukascopyOverride with
  | some rows =>
      (rows.filter fun row => (monthStartEnd ym).1 ≤ row.ts ∧ row.ts < (monthStartEnd ym).2, 0)
  | none => fetchWithRetries (api ym) o.retries

/-- Nothing has come of the attempts. -/
def gaveUp (o : Options) (fetched : List OhlcvRow × ℕ) : Bool :=
  fetched.1 = [] ∧ o.dukascopyOverride = none ∧ o.retries ≤ fetched.2

/-- What becomes of a month.  Most months that are skipped are reported. -/
inductive Outcome
  | skipped (reported : Bool)
  | planned
  | failed
  | writeError
  | written (candles : ℕ)
  deriving DecidableEq

/-- Changing the index, if there is one to be kept up. -/
def cover (o : Options) (f : HistoricalParquet → HistoricalParquet) (d : HistoricalParquet) :
    HistoricalParquet :=
  if o.updateCoverage = true then f d else d

/-- What is done for a month that is not skipped. -/
def fetchAndWrite (o : Options) (api : Api) (d : HistoricalParquet) (ym : ℕ × ℕ) :
    Outcome × HistoricalParquet :=
  let fetched := candlesOf o api ym
  if gaveUp o fetched then (.failed, cover o (·.markFailed ym) d)
  else
    match d.writeMonth ym fetched.1 with
    | none => (.writeError, cover o (·.markFailed ym) d)
    | some d => (.written fetched.1.length, cover o (·.markRows ym fetched.1) d)

/-- What a run does with a month. -/
def backfillMonth (o : Options) (api : Api) (d : HistoricalParquet) (ym : ℕ × ℕ) :
    Outcome × HistoricalParquet :=
  if o.updateCoverage ∧ o.skipExisting ∧ d.isDone ym then (.skipped true, d)
  else if o.updateCoverage ∧ o.skipExisting ∧ d.isFailed ym ∧ ¬ o.retryFailed then
    (.skipped false, d)
  else if o.skipExisting ∧ d.hasMonth ym then
    -- a file that the index does not know of
    (.skipped true,
      cover o (fun d => if d.isDone ym then d else d.syncRows ym (d.readMonth ym)) d)
  else if o.dryRun then (.planned, d)
  else fetchAndWrite o api d ym

/-! ### A run -/

/-- What a run counts and reports, the files and the index. -/
structure Backfill where
  store : HistoricalParquet
  monthsWritten : ℕ := 0
  monthsSkipped : ℕ := 0
  monthsFailed : ℕ := 0
  monthsStopped : ℕ := 0
  candlesTotal : ℕ := 0
  progress : List ((ℕ × ℕ) × ℕ) := []
  raised : Bool := false

/-- A month is counted. -/
def Backfill.count (s : Backfill) (ym : ℕ × ℕ) : Outcome → Backfill
  | .skipped reported =>
      { s with
        monthsSkipped := s.monthsSkipped + 1
        progress := if reported = true then s.progress ++ [(ym, 0)] else s.progress }
  | .planned => { s with monthsWritten := s.monthsWritten + 1 }
  | .failed =>
      { s with monthsFailed := s.monthsFailed + 1, progress := s.progress ++ [(ym, 0)] }
  | .writeError => { s with monthsFailed := s.monthsFailed + 1, raised := true }
  | .written candles =>
      { s with
        monthsWritten := s.monthsWritten + 1
        candlesTotal := s.candlesTotal + candles
        progress := s.progress ++ [(ym, candles)] }

/-- A month of a run. -/
def Backfill.month (o : Options) (api : Api) (s : Backfill) (ym : ℕ × ℕ) : Backfill :=
  let result := backfillMonth o api s.store ym
  ({ s with store := result.2 }).count ym result.1

/-- As many months are written as were asked for. -/
def Backfill.stops (s : Backfill) (o : Options) : Bool :=
  match o.stopAfter with
  | none => false
  | some n => 0 < n ∧ n ≤ s.monthsWritten

/-- The months of a run. -/
def loop (o : Options) (api : Api) : List (ℕ × ℕ) → Backfill → Backfill
  | [], s => s
  | ym :: rest, s =>
      if s.stops o = true then { s with monthsStopped := rest.length + 1 }
      else
        let s := s.month o api ym
        if s.raised = true then s else loop o api rest s

/-- A run over the months of a range. -/
def run (o : Options) (api : Api) (from_ to_ : ℕ × ℕ) (d : HistoricalParquet) : Backfill :=
  loop o api (monthsInRange from_ to_) { store := d }

/-! ### What a month changes -/

/-- What is done for a month: what it is counted as, the rows that are written, the mark. -/
structure Change where
  outcome : Outcome
  rows : Option (List OhlcvRow)
  mark : Option CoverageEntry

/-- The mark of a month with some rows. -/
def rowsEntry : List OhlcvRow → CoverageEntry
  | [] => ⟨.empty, 0, 0, 0⟩
  | row :: rows => ⟨.done, rows.length + 1, row.ts, (rows.getLastD row).ts⟩

/-- The mark of a month that has failed. -/
def failedEntry : Option CoverageEntry → CoverageEntry
  | none => ⟨.failed, 0, 0, 0⟩
  | some entry => { entry with status := .failed }

/-- A file has rows. -/
def HasRows (file : Option ParquetFile) : Prop := ∃ row rows, file = some (some (row :: rows))

instance (file : Option ParquetFile) : Decidable (HasRows file) :=
  match file with
  | some (some (row :: rows)) => isTrue ⟨row, rows, rfl⟩
  | some (some []) => isFalse (by rintro ⟨_, _, h⟩; cases h)
  | some none => isFalse (by rintro ⟨_, _, h⟩; cases h)
  | none => isFalse (by rintro ⟨_, _, h⟩; cases h)

def rowsOf : Option ParquetFile → List OhlcvRow
  | some (some rows) => rows
  | _ => []

/-- A mark, if there is an index to be kept up. -/
def covered (o : Options) (entry : CoverageEntry) : Option CoverageEntry :=
  if o.updateCoverage = true then some entry else none

/-- The change of a month that is asked for. -/
def fetchChange (o : Options) (fetched : List OhlcvRow × ℕ) (entry : Option CoverageEntry) :
    Change :=
  if gaveUp o fetched then ⟨.failed, none, covered o (failedEntry entry)⟩
  else if fetched.1 = [] then ⟨.written 0, none, covered o (rowsEntry [])⟩
  else if HistoricalParquet.validateCandles fetched.1 then
    ⟨.written fetched.1.length, some fetched.1, covered o (rowsEntry fetched.1)⟩
  else ⟨.writeError, none, covered o (failedEntry entry)⟩

/-- A month depends on its own file and its own mark alone. -/
def change (o : Options) (api : Api) (ym : ℕ × ℕ) (file : Option ParquetFile)
    (entry : Option CoverageEntry) : Change :=
  if o.updateCoverage ∧ o.skipExisting ∧ entry.map CoverageEntry.status = some .done then
    ⟨.skipped true, none, none⟩
  else if o.updateCoverage ∧ o.skipExisting ∧ entry.map CoverageEntry.status = some .failed ∧
      ¬ o.retryFailed then
    ⟨.skipped false, none, none⟩
  else if o.skipExisting ∧ HasRows file then
    ⟨.skipped true, none, covered o (rowsEntry (rowsOf file))⟩
  else if o.dryRun then ⟨.planned, none, none⟩
  else fetchChange o (candlesOf o api ym) entry

/-- The rows are written, and the month is marked. -/
def applyChange (d : HistoricalParquet) (ym : ℕ × ℕ) (c : Change) : HistoricalParquet :=
  let d := c.rows.elim d fun rows => { d with files := d.files.set ym (some rows) }
  c.mark.elim d (d.mark ym)

variable {o : Options} {api : Api} {d d' : HistoricalParquet} {ym ym' : ℕ × ℕ}

theorem hasMonth_iff : d.hasMonth ym = true ↔ HasRows (d.files.get? ym) := by
  rw [HistoricalParquet.hasMonth, HasRows]
  rcases d.files.get? ym with - | - | - | ⟨row, rows⟩
  · simp
  · simp
  · simp
  · simp

theorem markRows_eq (rows : List OhlcvRow) : d.markRows ym rows = d.mark ym (rowsEntry rows) := by
  cases rows with
  | nil => rfl
  | cons row rows => rfl

theorem markFailed_eq : d.markFailed ym = d.mark ym (failedEntry (d.getMonth ym)) := by
  rw [HistoricalParquet.markFailed]
  cases d.getMonth ym with
  | none => rfl
  | some entry => rfl

theorem cover_eq {f : HistoricalParquet → HistoricalParquet} {entry : CoverageEntry}
    (h : o.updateCoverage = true → f d = d.mark ym entry) :
    cover o f d = (covered o entry).elim d (d.mark ym) := by
  rw [cover, covered]
  split_ifs with hcover
  · exact h hcover
  · rfl

/-- What is done for a month that is asked for is its change. -/
theorem fetchAndWrite_eq :
    fetchAndWrite o api d ym =
      ((fetchChange o (candlesOf o api ym) (d.getMonth ym)).outcome,
        applyChange d ym (fetchChange o (candlesOf o api ym) (d.getMonth ym))) := by
  rw [fetchAndWrite, fetchChange]
  split_ifs with hgave hnil hvalid
  · exact congrArg (Prod.mk Outcome.failed) (cover_eq fun _ => markFailed_eq)
  · rw [HistoricalParquet.writeMonth, if_pos hnil, hnil]
    exact congrArg (Prod.mk (Outcome.written 0)) (cover_eq fun _ => markRows_eq [])
  · rw [HistoricalParquet.writeMonth, if_neg hnil, if_pos hvalid]
    exact congrArg (Prod.mk (Outcome.written _)) (cover_eq fun _ => markRows_eq _)
  · rw [HistoricalParquet.writeMonth, if_neg hnil, if_neg hvalid]
    exact congrArg (Prod.mk Outcome.writeError) (cover_eq fun _ => markFailed_eq)

/-- A month of a run is its change. -/
theorem backfillMonth_eq (o : Options) (api : Api) (d : HistoricalParquet) (ym : ℕ × ℕ) :
    backfillMonth o api d ym =
      ((change o api ym (d.files.get? ym) (d.getMonth ym)).outcome,
        applyChange d ym (change o api ym (d.files.get? ym) (d.getMonth ym))) := by
  have hstatus : ∀ status, d.status ym = some status ↔
      (d.getMonth ym).map CoverageEntry.status = some status := fun _ => Iff.rfl
  rw [backfillMonth, change]
  simp only [HistoricalParquet.isDone, HistoricalParquet.isFailed, decide_eq_true_eq, hstatus,
    hasMonth_iff]
  split_ifs with hdone hfailed hrows hdry
  · rfl
  · rfl
  · refine congrArg (Prod.mk (Outcome.skipped true)) (cover_eq fun hcover => ?_)
    have hnot : d.status ym ≠ some .done := fun h => hdone ⟨hcover, hrows.1, h⟩
    obtain ⟨row, rows, hfile⟩ := hrows.2
    rw [if_neg hnot, HistoricalParquet.readMonth, hfile]
    rfl
  · rfl
  · exact fetchAndWrite_eq

/-! ### A month that is over -/

/-- The file of a month after a change. -/
def Change.file (c : Change) (file : Option ParquetFile) : Option ParquetFile :=
  c.rows.elim file fun rows => some (some rows)

/-- The mark of a month after a change. -/
def Change.entry (c : Change) (entry : Option CoverageEntry) : Option CoverageEntry :=
  c.mark.elim entry some

/-- A change that does not raise and leaves the file and the mark. -/
structure Change.Idle (c : Change) (file : Option ParquetFile) (entry : Option CoverageEntry) :
    Prop where
  outcome : c.outcome ≠ .writeError
  file : c.file file = file
  entry : c.entry entry = entry

theorem getMonth_mark (entry : CoverageEntry) :
    (d.mark ym entry).getMonth ym' = if ym' = ym then some entry else d.getMonth ym' := by
  have hmarks : (d.mark ym entry).marks = d.marks.set (monthKey ym) entry := rfl
  rw [HistoricalParquet.getMonth, hmarks, Dict.get?_set]
  by_cases heq : ym' = ym
  · rw [if_pos heq, if_pos (congrArg monthKey heq)]
  · rw [if_neg heq, if_neg fun hkey => heq (monthKey_injective hkey)]
    rfl

theorem files_applyChange (c : Change) :
    (applyChange d ym c).files.get? ym' =
      if ym' = ym then c.file (d.files.get? ym) else d.files.get? ym' := by
  obtain ⟨outcome, rows, mark⟩ := c
  cases mark <;> cases rows <;>
    simp only [applyChange, Change.file, Option.elim, HistoricalParquet.files_mark,
      Dict.get?_set] <;>
    split_ifs with h <;> simp only [h]

theorem getMonth_applyChange (c : Change) :
    (applyChange d ym c).getMonth ym' =
      if ym' = ym then c.entry (d.getMonth ym) else d.getMonth ym' := by
  obtain ⟨outcome, rows, mark⟩ := c
  have hfiles : ∀ files, ({ d with files := files } : HistoricalParquet).getMonth = d.getMonth :=
    fun _ => rfl
  cases mark <;> cases rows <;>
    simp only [applyChange, Change.entry, Option.elim, getMonth_mark, hfiles] <;>
    split_ifs with h <;> simp only [h]

theorem Change.Idle.applyChange {c : Change} (h : c.Idle (d.files.get? ym) (d.getMonth ym)) :
    applyChange d ym c = d := by
  obtain ⟨outcome, rows, mark⟩ := c
  have hfile : ∀ rows' ∈ rows, d.files.set ym (some rows') = d.files := by
    rintro rows' rfl
    exact Dict.set_of_get? h.file.symm
  have hentry : ∀ entry ∈ mark, d.mark ym entry = d := by
    rintro entry rfl
    have hget : d.getMonth ym = some entry := h.entry.symm
    obtain ⟨files, index⟩ := d
    cases index with
    | none => cases hget
    | some months =>
        exact congrArg (fun m => (⟨files, some m⟩ : HistoricalParquet)) (Dict.set_of_get? hget)
  have hwrite : (rows.elim d fun rows' => { d with files := d.files.set ym (some rows') }) = d := by
    cases rows with
    | none => rfl
    | some rows' => exact congrArg (fun files => { d with files := files }) (hfile rows' rfl)
  rw [HistoricalBackfill.applyChange, hwrite]
  cases mark with
  | none => rfl
  | some entry => exact hentry entry rfl

/-- The change of a month that is done. -/
theorem change_of_done {file : Option ParquetFile} {entry : Option CoverageEntry}
    (h : o.updateCoverage ∧ o.skipExisting ∧ entry.map CoverageEntry.status = some .done) :
    change o api ym file entry = ⟨.skipped true, none, none⟩ := if_pos h

theorem idle_skipped (reported : Bool) (file : Option ParquetFile) (entry : Option CoverageEntry) :
    (⟨.skipped reported, none, none⟩ : Change).Idle file entry :=
  ⟨(by intro h; cases h), rfl, rfl⟩

theorem status_failedEntry (entry : Option CoverageEntry) :
    (failedEntry entry).status = .failed := by
  cases entry with
  | none => rfl
  | some entry => rfl

/-- A month that is marked as failed again is marked as it was. -/
theorem failedEntry_failedEntry (entry : Option CoverageEntry) :
    failedEntry (some (failedEntry entry)) = failedEntry entry := by
  cases entry with
  | none => rfl
  | some entry => rfl

theorem status_rowsEntry {rows : List OhlcvRow} (h : rows ≠ []) :
    (rowsEntry rows).status = .done := by
  cases rows with
  | nil => exact absurd rfl h
  | cons row rows => rfl

theorem hasRows_some {rows : List OhlcvRow} : HasRows (some (some rows)) ↔ rows ≠ [] := by
  constructor
  · rintro ⟨row, rows', h⟩
    obtain rfl : rows = row :: rows' := Option.some.inj (Option.some.inj h)
    exact List.cons_ne_nil _ _
  · intro h
    obtain ⟨row, rows', rfl⟩ := List.exists_cons_of_ne_nil h
    exact ⟨row, rows', rfl⟩

theorem entry_covered (h : o.updateCoverage = true) (outcome : Outcome)
    (rows : Option (List OhlcvRow)) (entry : CoverageEntry) (entry' : Option CoverageEntry) :
    (⟨outcome, rows, covered o entry⟩ : Change).entry entry' = some entry := by
  rw [Change.entry, covered, if_pos h]
  rfl

theorem entry_not_covered (h : ¬ o.updateCoverage = true) (outcome : Outcome)
    (rows : Option (List OhlcvRow)) (entry : CoverageEntry) (entry' : Option CoverageEntry) :
    (⟨outcome, rows, covered o entry⟩ : Change).entry entry' = entry' := by
  rw [Change.entry, covered, if_neg h]
  rfl

/-- A month that is asked for again changes nothing more. -/
theorem fetchChange_again {fetched : List OhlcvRow × ℕ} {entry : Option CoverageEntry} {c : Change}
    (hc : fetchChange o fetched entry = c) :
    fetchChange o fetched (c.entry entry) = c ∧ c.entry (c.entry entry) = c.entry entry := by
  by_cases hcover : o.updateCoverage = true
  · rw [fetchChange] at hc ⊢
    split_ifs at hc ⊢ with hgave hnil hvalid
    · subst hc
      rw [entry_covered hcover, failedEntry_failedEntry]
      exact ⟨rfl, entry_covered hcover ..⟩
    · subst hc
      exact ⟨rfl, (entry_covered hcover ..).trans (entry_covered hcover ..).symm⟩
    · subst hc
      exact ⟨rfl, (entry_covered hcover ..).trans (entry_covered hcover ..).symm⟩
    · subst hc
      rw [entry_covered hcover, failedEntry_failedEntry]
      exact ⟨rfl, entry_covered hcover ..⟩
  · have hentry : ∀ entry', c.entry entry' = entry' := by
      intro entry'
      rw [fetchChange] at hc
      split_ifs at hc
      all_goals exact hc ▸ entry_not_covered hcover ..
    rw [hentry, hentry]
    exact ⟨hc, rfl⟩

/-- A month whose rows are new is marked as done. -/
theorem status_fetchChange {fetched : List OhlcvRow × ℕ} {file : Option ParquetFile}
    {entry : Option CoverageEntry} {c : Change} (hc : fetchChange o fetched entry = c)
    (hcover : o.updateCoverage = true) (hfile : ¬ HasRows file) (hrows : HasRows (c.file file)) :
    (c.entry entry).map CoverageEntry.status = some .done := by
  rw [fetchChange] at hc
  split_ifs at hc with hgave hnil hvalid
  · subst hc
    exact absurd hrows hfile
  · subst hc
    exact absurd hrows hfile
  · subst hc
    rw [entry_covered hcover, Option.map_some, status_rowsEntry hnil]
  · subst hc
    exact absurd hrows hfile

theorem Change.file_file (c : Change) (file : Option ParquetFile) :
    c.file (c.file file) = c.file file := by
  obtain ⟨outcome, rows, mark⟩ := c
  cases rows with
  | none => rfl
  | some rows => rfl

/-- A month with rows, or that is planned, is as it was. -/
theorem idle_of_rows {file : Option ParquetFile} {entry : Option CoverageEntry}
    (h : o.updateCoverage = true → entry = some (rowsEntry (rowsOf file))) :
    (⟨.skipped true, none, covered o (rowsEntry (rowsOf file))⟩ : Change).Idle file entry := by
  refine ⟨(by intro h; cases h), rfl, ?_⟩
  by_cases hcover : o.updateCoverage = true
  · rw [entry_covered hcover, h hcover]
  · rw [entry_not_covered hcover]

/-- After its change a month has nothing left to change. -/
theorem change_again {file : Option ParquetFile} {entry : Option CoverageEntry} {c : Change}
    (hc : change o api ym file entry = c) (h : c.outcome ≠ .writeError) :
    (change o api ym (c.file file) (c.entry entry)).Idle (c.file file) (c.entry entry) := by
  have hsame := hc
  rw [change] at hc
  split_ifs at hc with hdone hfailed hrows hdry
  · subst hc
    exact hsame.symm ▸ idle_skipped ..
  · subst hc
    exact hsame.symm ▸ idle_skipped ..
  · -- with an index the month is done now, without one nothing was changed
    by_cases hcover : o.updateCoverage = true
    · subst hc
      obtain ⟨hskip, row, rows, rfl⟩ := hrows
      have hentry := entry_covered hcover (.skipped true) none (rowsEntry (row :: rows)) entry
      have hdone' :
          change o api ym (some (some (row :: rows))) (some (rowsEntry (row :: rows))) = _ :=
        change_of_done ⟨hcover, hskip, rfl⟩
      rw [show rowsOf (some (some (row :: rows))) = row :: rows from rfl, hentry]
      exact hdone'.symm ▸ idle_skipped ..
    · have hentry : c.entry entry = entry := hc ▸ entry_not_covered hcover ..
      have hfile : c.file file = file := hc ▸ rfl
      rw [hentry, hfile, hsame, ← hc]
      exact idle_of_rows fun hcover' => absurd hcover' hcover
  · subst hc
    exact hsame.symm ▸ ⟨(by intro h; cases h), rfl, rfl⟩
  · -- the month was asked for
    obtain ⟨hagain, hentry⟩ := fetchChange_again hc
    rw [change]
    split_ifs with hdone' hfailed' hrows'
    · exact idle_skipped ..
    · exact idle_skipped ..
    · refine idle_of_rows fun hcover => absurd ?_ hdone'
      have hfile : ¬ HasRows file := fun hfile => hrows ⟨hrows'.1, hfile⟩
      exact ⟨hcover, hrows'.1, status_fetchChange hc hcover hfile hrows'.2⟩
    · rw [hagain]
      exact ⟨h, c.file_file file, hentry⟩

/-! ### A run as a pass -/

/-- A month of a run, without what is counted.  It raises with what it has left. -/
def step (o : Options) (api : Api) (d : HistoricalParquet) (ym : ℕ × ℕ) :
    Except HistoricalParquet HistoricalParquet :=
  let result := backfillMonth o api d ym
  if result.1 = .writeError then .error result.2 else .ok result.2

theorem step_eq_ok :
    step o api d ym = .ok d' ↔
      (change o api ym (d.files.get? ym) (d.getMonth ym)).outcome ≠ .writeError ∧
      applyChange d ym (change o api ym (d.files.get? ym) (d.getMonth ym)) = d' := by
  rw [step, backfillMonth_eq]
  dsimp only
  split_ifs with herror
  · exact iff_of_false (fun h => by cases h) fun h => h.1 herror
  · exact ⟨fun h => ⟨herror, Except.ok.inj h⟩, fun h => congrArg Except.ok h.2⟩

theorem settled_iff : Resuming.Settled (step o api) d ym ↔
    (change o api ym (d.files.get? ym) (d.getMonth ym)).Idle (d.files.get? ym) (d.getMonth ym) := by
  rw [Resuming.Settled, step_eq_ok]
  constructor
  · rintro ⟨houtcome, heq⟩
    have hfile : (applyChange d ym _).files.get? ym = _ :=
      files_applyChange (change o api ym (d.files.get? ym) (d.getMonth ym))
    have hentry : (applyChange d ym _).getMonth ym = _ :=
      getMonth_applyChange (change o api ym (d.files.get? ym) (d.getMonth ym))
    rw [heq, if_pos rfl] at hfile hentry
    exact ⟨houtcome, hfile.symm, hentry.symm⟩
  · exact fun h => ⟨h.outcome, h.applyChange⟩

/-- A month that is over is passed without a change, whatever happens to the other months. -/
theorem resumable (o : Options) (api : Api) : Resuming.Resumable (step o api) where
  again d d' ym h := by
    obtain ⟨houtcome, rfl⟩ := step_eq_ok.1 h
    rw [settled_iff, files_applyChange, if_pos rfl, getMonth_applyChange, if_pos rfl]
    exact change_again rfl houtcome
  keeps d d' ym ym' hsettled h := by
    by_cases heq : ym' = ym
    · subst heq
      obtain rfl := Except.ok.inj (hsettled.symm.trans h)
      exact hsettled
    · obtain ⟨-, rfl⟩ := step_eq_ok.1 h
      rw [settled_iff] at hsettled ⊢
      rwa [files_applyChange, if_neg (Ne.symm heq), getMonth_applyChange, if_neg (Ne.symm heq)]

/-! ### What a run counts -/

variable {s r : Backfill} {months : List (ℕ × ℕ)}

/-- Whether a month is counted as written. -/
def Outcome.counts : Outcome → ℕ
  | .planned => 1
  | .written _ => 1
  | _ => 0

/-- The candles that are written. -/
def Outcome.candles : Outcome → ℕ
  | .written candles => candles
  | _ => 0

theorem store_month (o : Options) (api : Api) (s : Backfill) (ym : ℕ × ℕ) :
    (s.month o api ym).store = (backfillMonth o api s.store ym).2 := by
  rw [Backfill.month]
  cases (backfillMonth o api s.store ym).1 <;> rfl

theorem raised_month (hs : s.raised = false) :
    (s.month o api ym).raised = true ↔ (backfillMonth o api s.store ym).1 = .writeError := by
  rw [Backfill.month]
  cases (backfillMonth o api s.store ym).1 <;> simp [Backfill.count, hs]

theorem monthsWritten_month (o : Options) (api : Api) (s : Backfill) (ym : ℕ × ℕ) :
    (s.month o api ym).monthsWritten =
      s.monthsWritten + (backfillMonth o api s.store ym).1.counts := by
  rw [Backfill.month]
  cases (backfillMonth o api s.store ym).1 <;> rfl

theorem candlesTotal_month (o : Options) (api : Api) (s : Backfill) (ym : ℕ × ℕ) :
    (s.month o api ym).candlesTotal =
      s.candlesTotal + (backfillMonth o api s.store ym).1.candles := by
  rw [Backfill.month]
  cases (backfillMonth o api s.store ym).1 <;> rfl

theorem monthsStopped_month (o : Options) (api : Api) (s : Backfill) (ym : ℕ × ℕ) :
    (s.month o api ym).monthsStopped = s.monthsStopped := by
  rw [Backfill.month]
  cases (backfillMonth o api s.store ym).1 <;> rfl

/-- The months that a run has seen. -/
def Backfill.seen (s : Backfill) : ℕ := s.monthsWritten + s.monthsSkipped + s.monthsFailed

theorem seen_month (o : Options) (api : Api) (s : Backfill) (ym : ℕ × ℕ) :
    (s.month o api ym).seen = s.seen + 1 := by
  rw [Backfill.month]
  cases (backfillMonth o api s.store ym).1 <;>
    simp only [Backfill.count, Backfill.seen] <;> omega

/-- What a month adds to the reports: nothing, or the month with its candles. -/
theorem progress_month (o : Options) (api : Api) (s : Backfill) (ym : ℕ × ℕ) :
    (s.month o api ym).progress =
        s.progress ++ [(ym, (backfillMonth o api s.store ym).1.candles)] ∨
      (s.month o api ym).progress = s.progress ∧
        (backfillMonth o api s.store ym).1.candles = 0 := by
  rw [Backfill.month]
  cases (backfillMonth o api s.store ym).1 with
  | skipped reported =>
      cases reported with
      | true => exact .inl rfl
      | false => exact .inr ⟨rfl, rfl⟩
  | planned => exact .inr ⟨rfl, rfl⟩
  | failed => exact .inl rfl
  | writeError => exact .inr ⟨rfl, rfl⟩
  | written candles => exact .inl rfl

theorem step_month (hs : s.raised = false) :
    step o api s.store ym =
      if (s.month o api ym).raised = true then .error (s.month o api ym).store
      else .ok (s.month o api ym).store := by
  rw [store_month, step]
  exact (if_congr (raised_month hs) rfl rfl).symm

/-- The three ways in which a run goes on. -/
theorem loop_cons (o : Options) (api : Api) (ym : ℕ × ℕ) (months : List (ℕ × ℕ)) (s : Backfill) :
    (s.stops o = true ∧
        loop o api (ym :: months) s = { s with monthsStopped := months.length + 1 }) ∨
      (s.stops o = false ∧ (s.month o api ym).raised = true ∧
        loop o api (ym :: months) s = s.month o api ym) ∨
      (s.stops o = false ∧ (s.month o api ym).raised = false ∧
        loop o api (ym :: months) s = loop o api months (s.month o api ym)) := by
  cases hstops : s.stops o with
  | true => exact .inl ⟨rfl, if_pos hstops⟩
  | false =>
      have hloop : loop o api (ym :: months) s =
          if (s.month o api ym).raised = true then s.month o api ym
          else loop o api months (s.month o api ym) := if_neg (ne_true_of_eq_false hstops)
      cases hraised : (s.month o api ym).raised with
      | true => exact .inr (.inl ⟨rfl, rfl, hloop.trans (if_pos hraised)⟩)
      | false =>
          exact .inr (.inr ⟨rfl, rfl, hloop.trans (if_neg (ne_true_of_eq_false hraised))⟩)

/-- A run is a pass over the first months of the range, over all of them if it is not stopped. -/
theorem loop_eq_foldlM (hs : s.raised = false) :
    ∃ n, (o.stopAfter = none → n = months.length) ∧
      (months.take n).foldlM (step o api) s.store =
        if (loop o api months s).raised = true then .error (loop o api months s).store
        else .ok (loop o api months s).store := by
  induction months generalizing s with
  | nil => exact ⟨0, fun _ => rfl, (if_neg (ne_true_of_eq_false hs)).symm⟩
  | cons ym months ih =>
      rcases loop_cons o api ym months s with ⟨hstops, hloop⟩ | ⟨-, hraised, hloop⟩ |
        ⟨-, hraised, hloop⟩
      · refine ⟨0, fun hnone => ?_, ?_⟩
        · rw [Backfill.stops, hnone] at hstops
          cases hstops
        · rw [hloop]
          exact (if_neg (ne_true_of_eq_false hs)).symm
      · refine ⟨months.length + 1, fun _ => rfl, ?_⟩
        rw [hloop, if_pos hraised, List.take_succ_cons, List.foldlM_cons, step_month hs,
          if_pos hraised]
        rfl
      · obtain ⟨n, hn, hfold⟩ := ih hraised
        refine ⟨n + 1, fun hnone => congrArg (· + 1) (hn hnone), ?_⟩
        rw [hloop, ← hfold, List.take_succ_cons, List.foldlM_cons, step_month hs, hraised]
        rfl

/-- The months of a run are counted, unless it raises; then the last one seen has failed. -/
theorem seen_loop (hs : s.raised = false) (hstopped : s.monthsStopped = 0) :
    ((loop o api months s).raised = false →
        (loop o api months s).seen + (loop o api months s).monthsStopped =
          s.seen + months.length) ∧
      ((loop o api months s).raised = true →
        (loop o api months s).seen ≤ s.seen + months.length ∧
          (loop o api months s).monthsStopped = 0) := by
  induction months generalizing s with
  | nil =>
      exact ⟨fun _ => congrArg (s.seen + ·) hstopped, fun h => absurd h (ne_true_of_eq_false hs)⟩
  | cons ym months ih =>
      have hseen := seen_month o api s ym
      have hstopped' := (monthsStopped_month o api s ym).trans hstopped
      rcases loop_cons o api ym months s with ⟨-, hloop⟩ | ⟨-, hraised, hloop⟩ |
        ⟨-, hraised, hloop⟩
      · rw [hloop]
        exact ⟨fun _ => rfl, fun h => absurd h (ne_true_of_eq_false hs)⟩
      · rw [hloop, hseen, List.length_cons]
        exact ⟨fun h => absurd hraised (ne_true_of_eq_false h), fun _ => ⟨by omega, hstopped'⟩⟩
      · obtain ⟨hok, herror⟩ := ih hraised hstopped'
        rw [hloop, List.length_cons]
        rw [hseen] at hok herror
        exact ⟨fun h => by have := hok h; omega, fun h => ⟨by have := (herror h).1; omega,
          (herror h).2⟩⟩

/-- No more months are written than were asked for. -/
theorem monthsWritten_loop {n : ℤ} (hlimit : o.stopAfter = some n) (hn : 0 < n)
    (hs : (s.monthsWritten : ℤ) ≤ n) : ((loop o api months s).monthsWritten : ℤ) ≤ n := by
  induction months generalizing s with
  | nil => exact hs
  | cons ym months ih =>
      have hle : s.stops o = false → ((s.month o api ym).monthsWritten : ℤ) ≤ n := by
        intro hstops
        rw [Backfill.stops, hlimit] at hstops
        have hlt : ¬ n ≤ s.monthsWritten := fun h => of_decide_eq_false hstops ⟨hn, h⟩
        have hcounts : (backfillMonth o api s.store ym).1.counts ≤ 1 := by
          cases (backfillMonth o api s.store ym).1 <;> simp [Outcome.counts]
        rw [monthsWritten_month]
        omega
      rcases loop_cons o api ym months s with ⟨-, hloop⟩ | ⟨hstops, -, hloop⟩ |
        ⟨hstops, -, hloop⟩
      · exact hloop ▸ hs
      · exact hloop ▸ hle hstops
      · exact hloop ▸ ih (hle hstops)

/-- The reports of a run name months of the range in their order, and add up to the candles. -/
theorem progress_loop : ∃ reports, (loop o api months s).progress = s.progress ++ reports ∧
    (reports.map Prod.fst).Sublist months ∧
      (loop o api months s).candlesTotal = s.candlesTotal + (reports.map Prod.snd).sum := by
  induction months generalizing s with
  | nil => exact ⟨[], (List.append_nil _).symm, List.Sublist.slnil, rfl⟩
  | cons ym months ih =>
      -- what the month itself reports
      obtain ⟨here, hhere, hsub, hsum⟩ : ∃ here,
          (s.month o api ym).progress = s.progress ++ here ∧ (here.map Prod.fst).Sublist [ym] ∧
            (s.month o api ym).candlesTotal = s.candlesTotal + (here.map Prod.snd).sum := by
        have hcandles := candlesTotal_month o api s ym
        rcases progress_month o api s ym with h | ⟨h, hzero⟩
        · exact ⟨_, h, List.Sublist.refl _, hcandles⟩
        · exact ⟨[], h.trans (List.append_nil _).symm, List.nil_sublist _,
            hcandles.trans (congrArg (s.candlesTotal + ·) hzero)⟩
      rcases loop_cons o api ym months s with ⟨-, hloop⟩ | ⟨-, -, hloop⟩ | ⟨-, -, hloop⟩
      · rw [hloop]
        exact ⟨[], (List.append_nil _).symm, List.nil_sublist _, rfl⟩
      · rw [hloop]
        exact ⟨here, hhere, hsub.trans (List.sublist_append_left [ym] months), hsum⟩
      · obtain ⟨rest, hrest, hsub', hsum'⟩ := ih (s := s.month o api ym)
        refine ⟨here ++ rest, ?_, ?_, ?_⟩
        · rw [hloop, hrest, hhere, List.append_assoc]
        · rw [List.map_append]
          exact hsub.append hsub'
        · rw [hloop, hsum', hsum, List.map_append, List.sum_append, Nat.add_assoc]

/-- Every month of the range is counted once, as written, skipped, failed or not looked at; the
limit is kept; the reports name the months in order, each once, and add up to the candles. -/
theorem run_accounting (o : Options) (api : Api) (from_ to_ : ℕ × ℕ) (d : HistoricalParquet) :
    ((run o api from_ to_ d).raised = false →
        (run o api from_ to_ d).monthsWritten + (run o api from_ to_ d).monthsSkipped +
            (run o api from_ to_ d).monthsFailed + (run o api from_ to_ d).monthsStopped =
          (monthsInRange from_ to_).length) ∧
      (∀ n, o.stopAfter = some n → 0 < n → ((run o api from_ to_ d).monthsWritten : ℤ) ≤ n) ∧
      ((run o api from_ to_ d).progress.map Prod.fst).Sublist (monthsInRange from_ to_) ∧
      ((run o api from_ to_ d).progress.map Prod.fst).Nodup ∧
      (run o api from_ to_ d).candlesTotal = ((run o api from_ to_ d).progress.map Prod.snd).sum := by
  obtain ⟨reports, hprogress, hsub, hsum⟩ :=
    progress_loop (o := o) (s := { store := d })
  rw [List.nil_append] at hprogress
  refine ⟨fun hok => ?_, fun n hlimit hn => monthsWritten_loop hlimit hn (le_of_lt hn), ?_, ?_, ?_⟩
  · exact ((seen_loop rfl rfl).1 hok).trans (Nat.zero_add _)
  · rw [run, hprogress]
    exact hsub
  · rw [run, hprogress]
    exact hsub.nodup (nodup_monthsInRange from_ to_)
  · rw [run, hprogress, hsum, Nat.zero_add]

/-! ### What a run leaves alone -/

/-- What a month does to the files and the marks. -/
theorem files_month (ym' : ℕ × ℕ) : (s.month o api ym).store.files.get? ym' =
    if ym' = ym then
      (change o api ym (s.store.files.get? ym) (s.store.getMonth ym)).file (s.store.files.get? ym)
    else s.store.files.get? ym' := by
  rw [store_month, backfillMonth_eq, files_applyChange]

theorem getMonth_month (ym' : ℕ × ℕ) : (s.month o api ym).store.getMonth ym' =
    if ym' = ym then
      (change o api ym (s.store.files.get? ym) (s.store.getMonth ym)).entry (s.store.getMonth ym)
    else s.store.getMonth ym' := by
  rw [store_month, backfillMonth_eq, getMonth_applyChange]

/-- A fact about the file and the mark of a month that every change of it keeps is kept by a run. -/
theorem loop_keeps {P : Option ParquetFile → Option CoverageEntry → Prop}
    (hP : ∀ file entry, ym ∈ months → P file entry →
      P ((change o api ym file entry).file file) ((change o api ym file entry).entry entry))
    (hs : P (s.store.files.get? ym) (s.store.getMonth ym)) :
    P ((loop o api months s).store.files.get? ym) ((loop o api months s).store.getMonth ym) := by
  induction months generalizing s with
  | nil => exact hs
  | cons ym' months ih =>
      have hmonth : P ((s.month o api ym').store.files.get? ym)
          ((s.month o api ym').store.getMonth ym) := by
        rw [files_month, getMonth_month]
        by_cases heq : ym = ym'
        · subst heq
          rw [if_pos rfl, if_pos rfl]
          exact hP _ _ List.mem_cons_self hs
        · rwa [if_neg heq, if_neg heq]
      rcases loop_cons o api ym' months s with ⟨-, hloop⟩ | ⟨-, -, hloop⟩ | ⟨-, -, hloop⟩
      · exact hloop ▸ hs
      · exact hloop ▸ hmonth
      · exact hloop ▸ ih (fun file entry hmem => hP file entry (List.mem_cons_of_mem _ hmem)) hmonth

/-- The months outside the range are as before. -/
theorem loop_of_not_mem (h : ym ∉ months) :
    (loop o api months s).store.files.get? ym = s.store.files.get? ym ∧
      (loop o api months s).store.getMonth ym = s.store.getMonth ym :=
  loop_keeps (P := fun file entry => file = s.store.files.get? ym ∧ entry = s.store.getMonth ym)
    (fun _ _ hmem => absurd hmem h) ⟨rfl, rfl⟩

/-- A month whose file has rows is skipped. -/
theorem file_change_of_rows {file : Option ParquetFile} {entry : Option CoverageEntry}
    (hskip : o.skipExisting = true) (hrows : HasRows file) :
    (change o api ym file entry).file file = file := by
  rw [change]
  split_ifs with hdone hfailed hrows' hdry
  · rfl
  · rfl
  · rfl
  · rfl
  · exact absurd ⟨hskip, hrows⟩ hrows'

/-- A run without writing leaves the files. -/
theorem file_change_of_dryRun {file : Option ParquetFile} {entry : Option CoverageEntry}
    (hdry : o.dryRun = true) : (change o api ym file entry).file file = file := by
  rw [change]
  split_ifs with hdone hfailed hrows
  · rfl
  · rfl
  · rfl
  · rfl

/-- However a run ends, it leaves the files that have rows, unless it is told to replace them; a run
without writing leaves all files; and the months outside the range are left by every run. -/
theorem run_frame (o : Options) (api : Api) (from_ to_ : ℕ × ℕ) (d : HistoricalParquet) :
    (o.skipExisting = true → ∀ ym, HasRows (d.files.get? ym) →
        (run o api from_ to_ d).store.files.get? ym = d.files.get? ym) ∧
      (o.dryRun = true → ∀ ym,
        (run o api from_ to_ d).store.files.get? ym = d.files.get? ym) ∧
      ∀ ym, ym ∉ monthsInRange from_ to_ →
        (run o api from_ to_ d).store.files.get? ym = d.files.get? ym ∧
          (run o api from_ to_ d).store.getMonth ym = d.getMonth ym := by
  refine ⟨fun hskip ym hrows => ?_, fun hdry ym => ?_, fun ym hmem => loop_of_not_mem hmem⟩
  · refine loop_keeps (P := fun file _ => file = d.files.get? ym) (fun file entry _ heq => ?_) rfl
    subst heq
    exact file_change_of_rows hskip hrows
  · refine loop_keeps (P := fun file _ => file = d.files.get? ym) (fun file entry _ heq => ?_) rfl
    subst heq
    exact file_change_of_dryRun hdry

/-! ### Taking a run up again -/

/-- A run that is stopped after some months. -/
def Options.stopping (o : Options) (limit : Option ℤ) : Options := { o with stopAfter := limit }

/-- One run after the other. -/
def runs (o : Options) (api : Api) (from_ to_ : ℕ × ℕ) (limits : List (Option ℤ))
    (d : HistoricalParquet) : HistoricalParquet :=
  limits.foldl (fun d limit => (run (o.stopping limit) api from_ to_ d).store) d

/-- A run without a limit is a pass over the range. -/
theorem run_eq_foldlM (o : Options) (api : Api) (from_ to_ : ℕ × ℕ) (d : HistoricalParquet) :
    (monthsInRange from_ to_).foldlM (step o api) d =
      if (run (o.stopping none) api from_ to_ d).raised = true then
        .error (run (o.stopping none) api from_ to_ d).store
      else .ok (run (o.stopping none) api from_ to_ d).store := by
  obtain ⟨n, hn, hfold⟩ := loop_eq_foldlM (o := o.stopping none) (s := { store := d }) rfl
  rw [hn rfl, List.take_length] at hfold
  exact hfold

theorem store_eq_of_foldlM {from_ to_ : ℕ × ℕ}
    (h : (monthsInRange from_ to_).foldlM (step o api) d = .ok d') :
    (run (o.stopping none) api from_ to_ d).raised = false ∧
      (run (o.stopping none) api from_ to_ d).store = d' := by
  rw [run_eq_foldlM] at h
  split_ifs at h with hraised
  exact ⟨Bool.eq_false_of_not_eq_true hraised, Except.ok.inj h⟩

/-- A run with a limit, before a run without one that does not raise, is over before it. -/
theorem run_resume_one {from_ to_ : ℕ × ℕ} (limit : Option ℤ)
    (h : (monthsInRange from_ to_).foldlM (step o api) d = .ok d') :
    (monthsInRange from_ to_).foldlM (step o api)
      (run (o.stopping limit) api from_ to_ d).store = .ok d' := by
  obtain ⟨n, -, hfold⟩ := loop_eq_foldlM (o := o.stopping limit) (s := { store := d }) rfl
  have hsplit := List.take_append_drop n (monthsInRange from_ to_)
  rw [← hsplit] at h ⊢
  by_cases hraised : (loop (o.stopping limit) api (monthsInRange from_ to_)
      { store := d }).raised = true
  · -- the whole range would have raised, too
    have herror : ((monthsInRange from_ to_).take n).foldlM (step o api) d = .error _ :=
      hfold.trans (if_pos hraised)
    rw [List.foldlM_append, herror] at h
    cases h
  · have hok : ((monthsInRange from_ to_).take n).foldlM (step o api) d = .ok _ :=
      hfold.trans (if_neg hraised)
    exact (Resuming.foldlM_resume (resumable o api) hok).trans h

/-- If a run over the whole range does not raise, then it leaves the same files and the same index
after any number of runs that were stopped as it does alone, and again it does not raise. -/
theorem run_resume (o : Options) (api : Api) (from_ to_ : ℕ × ℕ) (d : HistoricalParquet)
    (limits : List (Option ℤ)) (h : (run (o.stopping none) api from_ to_ d).raised = false) :
    (run (o.stopping none) api from_ to_ (runs o api from_ to_ limits d)).raised = false ∧
      (run (o.stopping none) api from_ to_ (runs o api from_ to_ limits d)).store =
        (run (o.stopping none) api from_ to_ d).store := by
  have hfold : (monthsInRange from_ to_).foldlM (step o api) d =
      .ok (run (o.stopping none) api from_ to_ d).store :=
    (run_eq_foldlM o api from_ to_ d).trans (if_neg (ne_true_of_eq_false h))
  refine store_eq_of_foldlM ?_
  generalize (run (o.stopping none) api from_ to_ d).store = d' at hfold
  clear h
  induction limits generalizing d with
  | nil => exact hfold
  | cons limit limits ih => exact ih _ (run_resume_one limit hfold)

/-- A source that has nothing for the first month of a year. -/
def startingLate : Api := fun ym _ => some (if ym.2 = 1 then [] else [⟨60 * ym.2, 1, 1, 1, 1, 0⟩])

theorem run_resume_startingLate :
    (run {} startingLate (2003, 1) (2003, 3)
        (runs {} startingLate (2003, 1) (2003, 3) [some 1, some 2] ⟨.empty, none⟩)).store =
      (run {} startingLate (2003, 1) (2003, 3) ⟨.empty, none⟩).store :=
  (run_resume {} startingLate (2003, 1) (2003, 3) ⟨.empty, none⟩ [some 1, some 2]
    (by decide +kernel)).2

/-! ### A run that stalls -/

/-- What a month that is asked for counts as, if there are no rows. -/
theorem counts_fetchChange {fetched : List OhlcvRow × ℕ} {entry : Option CoverageEntry} {c : Change}
    (hc : fetchChange o fetched entry = c) (hcandles : c.outcome.candles = 0) :
    c.rows = none ∧ (c.outcome.counts = 0 ∨
      (o.updateCoverage = true → c.entry entry = some (rowsEntry []))) := by
  rw [fetchChange] at hc
  split_ifs at hc with hgave hnil hvalid
  · subst hc
    exact ⟨rfl, .inl rfl⟩
  · subst hc
    exact ⟨rfl, .inr fun hcover => entry_covered hcover ..⟩
  · subst hc
    exact absurd (List.length_eq_zero_iff.1 hcandles) hnil
  · subst hc
    exact ⟨rfl, .inl rfl⟩

/-- A month without candles counts again as it did. -/
theorem counts_change_again {file : Option ParquetFile} {entry : Option CoverageEntry} {c : Change}
    (hc : change o api ym file entry = c) (hcandles : c.outcome.candles = 0) :
    (change o api ym (c.file file) (c.entry entry)).outcome.counts = c.outcome.counts := by
  have hsame := hc
  rw [change] at hc
  split_ifs at hc with hdone hfailed hrows hdry
  · subst hc
    exact congrArg (fun c => c.outcome.counts) hsame
  · subst hc
    exact congrArg (fun c => c.outcome.counts) hsame
  · subst hc
    rw [change]
    split_ifs with hdone' hfailed' hrows' hdry'
    · rfl
    · rfl
    · rfl
    · exact absurd hrows hrows'
    · exact absurd hrows hrows'
  · subst hc
    exact congrArg (fun c => c.outcome.counts) hsame
  · -- the month was asked for, and there were no rows
    obtain ⟨hagain, -⟩ := fetchChange_again hc
    obtain ⟨hnone, hcounts⟩ := counts_fetchChange hc hcandles
    have hfile : c.file file = file := by rw [Change.file, hnone]; rfl
    rw [hfile, change]
    split_ifs with hdone' hfailed'
    · rcases hcounts with hzero | hentry
      · exact hzero.symm
      · rw [hentry hdone'.1] at hdone'
        exact absurd hdone'.2.2 (by decide)
    · rcases hcounts with hzero | hentry
      · exact hzero.symm
      · rw [hentry hfailed'.1] at hfailed'
        exact absurd hfailed'.2.2.1 (by decide)
    · rw [hagain]

theorem candlesTotal_le_loop : s.candlesTotal ≤ (loop o api months s).candlesTotal := by
  obtain ⟨reports, -, -, hsum⟩ : ∃ reports, (loop o api months s).progress = _ ∧ _ :=
    progress_loop
  omega

/-- A month without candles, seen again as it was left. -/
theorem month_again {s' : Backfill} (hs : s.raised = false) (hs' : s'.raised = false)
    (hraised : (s.month o api ym).raised = false)
    (hcandles : (s.month o api ym).candlesTotal = s.candlesTotal)
    (hfile : s'.store.files.get? ym = (s.month o api ym).store.files.get? ym)
    (hmark : s'.store.getMonth ym = (s.month o api ym).store.getMonth ym) :
    (s'.month o api ym).raised = false ∧ (s'.month o api ym).store = s'.store ∧
      (s'.monthsWritten = s.monthsWritten →
        (s'.month o api ym).monthsWritten = (s.month o api ym).monthsWritten) := by
  generalize hc : change o api ym (s.store.files.get? ym) (s.store.getMonth ym) = c
  rw [files_month, if_pos rfl, hc] at hfile
  rw [getMonth_month, if_pos rfl, hc] at hmark
  have houtcome : (backfillMonth o api s.store ym).1 = c.outcome := by rw [backfillMonth_eq, hc]
  have hzero : c.outcome.candles = 0 := by
    rw [candlesTotal_month, houtcome] at hcandles
    omega
  have hnoerror : c.outcome ≠ .writeError := fun herror =>
    ne_true_of_eq_false hraised ((raised_month hs).2 (houtcome.trans herror))
  -- the second change
  have hidle := change_again hc hnoerror
  have hcounts := counts_change_again hc hzero
  rw [← hfile, ← hmark] at hidle hcounts
  have hmonth := backfillMonth_eq o api s'.store ym
  refine ⟨?_, ?_, fun hwritten => ?_⟩
  · refine Bool.eq_false_of_not_eq_true fun h => hidle.outcome ?_
    rw [raised_month hs', hmonth] at h
    exact h
  · rw [store_month, hmonth]
    exact hidle.applyChange
  · rw [monthsWritten_month, monthsWritten_month, hmonth, houtcome, hwritten]
    exact congrArg (s.monthsWritten + ·) hcounts

/-- A run again over the months, from what the first run has left, when there were no candles. -/
theorem loop_again (s' : Backfill) (hnodup : months.Nodup) (hs : s.raised = false)
    (hs' : s'.raised = false) (hok : (loop o api months s).raised = false)
    (hcandles : (loop o api months s).candlesTotal = s.candlesTotal)
    (hstore : s'.store = (loop o api months s).store)
    (hwritten : s'.monthsWritten = s.monthsWritten)
    (hstopped : s'.monthsStopped = s.monthsStopped) :
    (loop o api months s').store = s'.store ∧
      (loop o api months s').monthsWritten = (loop o api months s).monthsWritten ∧
      (loop o api months s').monthsStopped = (loop o api months s).monthsStopped := by
  induction months generalizing s s' with
  | nil => exact ⟨rfl, hwritten, hstopped⟩
  | cons ym months ih =>
      have hstops : s'.stops o = s.stops o := by rw [Backfill.stops, Backfill.stops, hwritten]
      rcases loop_cons o api ym months s with ⟨hstop, hloop⟩ | ⟨-, hraised, hloop⟩ |
        ⟨hstop, hraised, hloop⟩
      · have hloop' : loop o api (ym :: months) s' =
            { s' with monthsStopped := months.length + 1 } :=
          if_pos (hstops.trans hstop)
        rw [hloop, hloop']
        exact ⟨rfl, hwritten, rfl⟩
      · rw [hloop] at hok
        exact absurd hraised (ne_true_of_eq_false hok)
      · rw [hloop] at hok hcandles hstore ⊢
        obtain ⟨hym, hnodup⟩ := List.nodup_cons.1 hnodup
        -- nothing is written here or later, and later months leave this one alone
        have hle : (s.month o api ym).candlesTotal ≤
            (loop o api months (s.month o api ym)).candlesTotal := candlesTotal_le_loop
        have hhere := candlesTotal_month o api s ym
        obtain ⟨hfile, hmark⟩ := loop_of_not_mem (o := o) (s := s.month o api ym) hym
        rw [← hstore] at hfile hmark
        obtain ⟨hraised', hstore', hcount⟩ :=
          month_again hs hs' hraised (by omega) hfile hmark
        have hloop' : loop o api (ym :: months) s' = loop o api months (s'.month o api ym) := by
          rw [loop, if_neg (ne_true_of_eq_false (hstops.trans hstop))]
          exact if_neg (ne_true_of_eq_false hraised')
        rw [hloop', ← hstore']
        refine ih _ hnodup hraised hraised' hok (by omega) (hstore'.trans hstore) (hcount hwritten) ?_
        rw [monthsStopped_month, monthsStopped_month, hstopped]

/-- A run that writes no candles is repeated without end: every further run leaves the files and
the index, and is stopped at the same month.  The months behind the limit are never reached. -/
theorem run_stalls (o : Options) (api : Api) (from_ to_ : ℕ × ℕ) (d : HistoricalParquet)
    (hok : (run o api from_ to_ d).raised = false)
    (hcandles : (run o api from_ to_ d).candlesTotal = 0) (k : ℕ) :
    runs o api from_ to_ (List.replicate (k + 1) o.stopAfter) d = (run o api from_ to_ d).store ∧
      (run o api from_ to_ (run o api from_ to_ d).store).monthsStopped =
        (run o api from_ to_ d).monthsStopped := by
  have hagain := loop_again { store := (run o api from_ to_ d).store }
    (nodup_monthsInRange from_ to_) rfl rfl hok hcandles rfl rfl rfl
  refine ⟨?_, hagain.2.2⟩
  have hrepeat : ∀ k, runs o api from_ to_ (List.replicate k o.stopAfter)
      (run o api from_ to_ d).store = (run o api from_ to_ d).store := by
    intro k
    induction k with
    | zero => rfl
    | succ k ih =>
        rw [List.replicate_succ, runs, List.foldl_cons]
        exact (congrArg (runs o api from_ to_ (List.replicate k o.stopAfter)) hagain.1).trans ih
  exact hrepeat k

theorem run_stalls_startingLate :
    (run { stopAfter := some 1 } startingLate (2003, 1) (2003, 3) ⟨.empty, none⟩).monthsStopped = 2 ∧
      runs { stopAfter := some 1 } startingLate (2003, 1) (2003, 3)
          (List.replicate 100 (some 1)) ⟨.empty, none⟩ =
        (run { stopAfter := some 1 } startingLate (2003, 1) (2003, 3) ⟨.empty, none⟩).store :=
  ⟨by decide +kernel, (run_stalls { stopAfter := some 1 } startingLate (2003, 1) (2003, 3)
    ⟨.empty, none⟩ (by decide +kernel) (by decide +kernel) 99).1⟩

/-! ### The index -/

/-- A mark of a month that is done says what is in the file. -/
def Sound (file : Option ParquetFile) (entry : Option CoverageEntry) : Prop :=
  entry.map CoverageEntry.status = some .done → HasRows file ∧ entry = some (rowsEntry (rowsOf file))

theorem sound_of_ne_done {file : Option ParquetFile} {entry : Option CoverageEntry}
    (h : entry.map CoverageEntry.status ≠ some .done) : Sound file entry :=
  fun hdone => absurd hdone h

/-- A change keeps the index sound, unless it may replace a file behind the index. -/
theorem sound_change {file : Option ParquetFile} {entry : Option CoverageEntry}
    (ho : o.updateCoverage = true ∨ o.skipExisting = true) (h : Sound file entry) :
    Sound ((change o api ym file entry).file file) ((change o api ym file entry).entry entry) := by
  have hfailed : Sound file (some (failedEntry entry)) :=
    sound_of_ne_done fun hdone => by
      rw [Option.map_some, status_failedEntry] at hdone
      cases hdone
  rw [change, fetchChange]
  by_cases hcover : o.updateCoverage = true
  · split_ifs with hdone hfail hrows hdry hgave hnil hvalid
    · exact h
    · exact h
    · rw [entry_covered hcover]
      exact fun _ => ⟨hrows.2, rfl⟩
    · exact h
    · rw [entry_covered hcover]
      exact hfailed
    · rw [entry_covered hcover]
      exact sound_of_ne_done fun hdone => by cases hdone
    · rw [entry_covered hcover]
      exact fun _ => ⟨hasRows_some.2 hnil, rfl⟩
    · rw [entry_covered hcover]
      exact hfailed
  · have hskip := ho.resolve_left hcover
    split_ifs with hdone hfail hrows hdry hgave hnil hvalid
    · exact h
    · exact h
    · rw [entry_not_covered hcover]
      exact h
    · exact h
    · rw [entry_not_covered hcover]
      exact h
    · rw [entry_not_covered hcover]
      exact h
    · -- a file without rows is replaced: no mark said that it was done
      rw [entry_not_covered hcover]
      exact sound_of_ne_done fun hmark => hrows ⟨hskip, (h hmark).1⟩
    · rw [entry_not_covered hcover]
      exact h

/-- Where the index is sound before some runs, however they end, it is sound after them, if each
of them keeps up the index or leaves the files that are there. -/
theorem runs_sound (calls : List (Options × Api × (ℕ × ℕ) × (ℕ × ℕ))) (d : HistoricalParquet)
    (ho : ∀ call ∈ calls, call.1.updateCoverage = true ∨ call.1.skipExisting = true)
    (h : ∀ ym, Sound (d.files.get? ym) (d.getMonth ym)) (ym : ℕ × ℕ) :
    let after := calls.foldl (fun d call => (run call.1 call.2.1 call.2.2.1 call.2.2.2 d).store) d
    Sound (after.files.get? ym) (after.getMonth ym) := by
  induction calls generalizing d with
  | nil => exact h ym
  | cons call calls ih =>
      refine ih _ (fun call hmem => ho call (List.mem_cons_of_mem _ hmem)) fun ym => ?_
      exact loop_keeps (P := Sound)
        (fun _ _ _ => sound_change (ho call List.mem_cons_self)) (h ym)

theorem sound_empty (ym : ℕ × ℕ) : Sound
    ((⟨.empty, none⟩ : HistoricalParquet).files.get? ym)
    ((⟨.empty, none⟩ : HistoricalParquet).getMonth ym) :=
  sound_of_ne_done fun h => by cases h

theorem runs_sound_startingLate :
    Sound ((run {} startingLate (2003, 1) (2003, 3) ⟨.empty, none⟩).store.files.get? (2003, 2))
      ((run {} startingLate (2003, 1) (2003, 3) ⟨.empty, none⟩).store.getMonth (2003, 2)) :=
  runs_sound [({}, startingLate, (2003, 1), (2003, 3))] ⟨.empty, none⟩
    (fun _ hmem => by rw [List.mem_singleton.1 hmem]; exact .inl rfl) sound_empty (2003, 2)

/-! ### What the months are after a run -/

/-- A run that sees all its months does each of them once, from what the month was before. -/
theorem loop_complete (hnodup : months.Nodup) (hs : s.raised = false)
    (hok : (loop o api months s).raised = false) (hfull : (loop o api months s).monthsStopped = 0)
    (hmem : ym ∈ months) :
    (loop o api months s).store.files.get? ym =
        (change o api ym (s.store.files.get? ym) (s.store.getMonth ym)).file
          (s.store.files.get? ym) ∧
      (loop o api months s).store.getMonth ym =
        (change o api ym (s.store.files.get? ym) (s.store.getMonth ym)).entry
          (s.store.getMonth ym) ∧
      (change o api ym (s.store.files.get? ym) (s.store.getMonth ym)).outcome ≠ .writeError := by
  induction months generalizing s with
  | nil => exact absurd hmem List.not_mem_nil
  | cons ym' months ih =>
      rcases loop_cons o api ym' months s with ⟨-, hloop⟩ | ⟨-, hraised, hloop⟩ |
        ⟨-, hraised, hloop⟩
      · rw [hloop] at hfull
        exact absurd hfull (Nat.succ_ne_zero _)
      · rw [hloop] at hok
        exact absurd hraised (ne_true_of_eq_false hok)
      · rw [hloop] at hok hfull ⊢
        obtain ⟨hym, hnodup⟩ := List.nodup_cons.1 hnodup
        rcases List.mem_cons.1 hmem with rfl | hmem
        · obtain ⟨hfile, hmark⟩ := loop_of_not_mem (o := o) (s := s.month o api ym) hym
          rw [hfile, hmark, files_month, if_pos rfl, getMonth_month, if_pos rfl]
          refine ⟨rfl, rfl, fun herror => ne_true_of_eq_false hraised ((raised_month hs).2 ?_)⟩
          rw [backfillMonth_eq]
          exact herror
        · have hne : ym ≠ ym' := fun heq => hym (heq ▸ hmem)
          have hrest := ih hnodup hraised hok hfull hmem
          rwa [files_month, if_neg hne, getMonth_month, if_neg hne] at hrest

/-- What a change leaves, where the index is kept up and the months are written. -/
theorem change_complete {file : Option ParquetFile} {entry : Option CoverageEntry} {c : Change}
    (hc : change o api ym file entry = c) (hcover : o.updateCoverage = true)
    (hdry : o.dryRun = false) (hok : c.outcome ≠ .writeError) :
    (c.entry entry).map CoverageEntry.status = some .done ∨
      ((c.entry entry).map CoverageEntry.status = some .failed ∧
        (entry.map CoverageEntry.status = some .failed ∨ gaveUp o (candlesOf o api ym) = true)) ∨
      ((c.entry entry).map CoverageEntry.status = some .empty ∧ (candlesOf o api ym).1 = [] ∧
        gaveUp o (candlesOf o api ym) = false) := by
  rw [change, fetchChange] at hc
  split_ifs at hc with hdone hfailed hrows hdry' hgave hnil hvalid
  · subst hc
    exact .inl hdone.2.2
  · subst hc
    exact .inr (.inl ⟨hfailed.2.2.1, .inl hfailed.2.2.1⟩)
  · subst hc
    obtain ⟨-, row, rows, rfl⟩ := hrows
    rw [entry_covered hcover]
    exact .inl rfl
  · exact absurd hdry' (ne_true_of_eq_false hdry)
  · subst hc
    rw [entry_covered hcover, Option.map_some, status_failedEntry]
    exact .inr (.inl ⟨rfl, .inr hgave⟩)
  · subst hc
    rw [entry_covered hcover]
    exact .inr (.inr ⟨rfl, hnil, Bool.eq_false_of_not_eq_true hgave⟩)
  · subst hc
    rw [entry_covered hcover, Option.map_some, status_rowsEntry hnil]
    exact .inl rfl
  · subst hc
    exact absurd rfl hok

/-- After a run that sees all its months, each of them is done, and the index says what is in its
file; or it has failed, now or before; or the source has answered without rows. -/
theorem run_complete (o : Options) (api : Api) (from_ to_ : ℕ × ℕ) (d : HistoricalParquet)
    (hcover : o.updateCoverage = true) (hdry : o.dryRun = false)
    (hok : (run o api from_ to_ d).raised = false)
    (hfull : (run o api from_ to_ d).monthsStopped = 0)
    (hsound : ∀ ym, Sound (d.files.get? ym) (d.getMonth ym)) :
    ∀ ym ∈ monthsInRange from_ to_,
      let after := (run o api from_ to_ d).store
      let asked := candlesOf o api ym
      (after.status ym = some .done ∧ HasRows (after.files.get? ym) ∧
          after.getMonth ym = some (rowsEntry (rowsOf (after.files.get? ym)))) ∨
        (after.status ym = some .failed ∧ (d.status ym = some .failed ∨ gaveUp o asked = true)) ∨
        (after.status ym = some .empty ∧ asked.1 = [] ∧ gaveUp o asked = false) := by
  intro ym hmem
  obtain ⟨hfile, hmark, hnoerror⟩ :=
    loop_complete (nodup_monthsInRange from_ to_) rfl hok hfull hmem
  have hafter : Sound ((run o api from_ to_ d).store.files.get? ym)
      ((run o api from_ to_ d).store.getMonth ym) :=
    loop_keeps (P := Sound) (fun _ _ _ => sound_change (.inl hcover)) (hsound ym)
  have hcases := change_complete rfl hcover hdry hnoerror
  rw [← hmark] at hcases
  exact hcases.imp_left fun hdone => ⟨hdone, hafter hdone⟩

theorem run_complete_startingLate :
    let after := (run {} startingLate (2003, 1) (2003, 3) ⟨.empty, none⟩).store
    let asked := candlesOf {} startingLate (2003, 1)
    (after.status (2003, 1) = some .done ∧ HasRows (after.files.get? (2003, 1)) ∧
        after.getMonth (2003, 1) = some (rowsEntry (rowsOf (after.files.get? (2003, 1))))) ∨
      (after.status (2003, 1) = some .failed ∧
        ((⟨.empty, none⟩ : HistoricalParquet).status (2003, 1) = some .failed ∨
          gaveUp {} asked = true)) ∨
      (after.status (2003, 1) = some .empty ∧ asked.1 = [] ∧ gaveUp {} asked = false) :=
  run_complete {} startingLate (2003, 1) (2003, 3) ⟨.empty, none⟩ rfl rfl (by decide +kernel)
    (by decide +kernel) sound_empty (2003, 1) (by decide +kernel)

end HistoricalBackfill
