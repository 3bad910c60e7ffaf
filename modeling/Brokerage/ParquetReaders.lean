/-
**Queries while a month is being written.**

A month of candles is written into a temporary file, which is then renamed over the file of the
month.  The queries read every file whose name matches their pattern, once to count the rows and
once to fetch them.  The name of the temporary file matches the pattern as well: a query that meets
it before it is complete fails, and one that meets it beside the old file reads both.

Main definitions:

* `ParquetReaders.ParquetFile`, `ParquetReaders.SymbolDir` — the files, and the directory of a symbol;
* `ParquetReaders.queryOhlcv` — a query, with the directory at each of its two reads;
* `ParquetReaders.writeMonth` — the steps of a writer;
* `ParquetReaders.MonthWrite` — the old and the new content of a month, among the other months.

Main results:

* `ParquetReaders.stage_left` — the directory after each of the steps;
* `ParquetReaders.sound_iff_undisturbed` — at which moments every query gets the old or the new content.
-/

import Brokerage.Crashes
import Brokerage.MixedOhlcv
import Brokerage.Text

set_option relaxedAutoImplicit false
set_option autoImplicit false

namespace ParquetReaders

/-! ### Files -/

/-- A parquet file: with its rows when it is complete, unreadable before. -/
inductive ParquetFile
  | inProgress
  | complete (rows : List OhlcvRow)
  deriving DecidableEq

/-- The rows that can be read of a file. -/
def ParquetFile.rows : ParquetFile → List OhlcvRow
  | .inProgress => []
  | .complete rows => rows

/-! ### Names -/

/-- `Path.with_suffix`: what follows the last point of the name, and the point, are replaced. -/
def withSuffix (name suffix : List Char) : List Char :=
  ((name.reverse.dropWhile (· ≠ '.')).drop 1).reverse ++ suffix

/-- A name matches `*.parquet`. -/
def matchesGlob (name : List Char) : Bool := ".parquet".toList.isSuffixOf name

/-- The file of a month. -/
def dataName : List Char := "data.parquet".toList

/-- The file that a writer fills. -/
def tmpName : List Char := withSuffix dataName ".tmp.parquet".toList

/-! ### The directory -/

/-- The directory of a symbol: the files of the other months, and those of a month that is written. -/
structure SymbolDir where
  rest : List ParquetFile
  data : Option ParquetFile
  tmp : Option ParquetFile
  deriving DecidableEq

/-- The files that match the pattern of the queries. -/
def SymbolDir.files (dir : SymbolDir) : List ParquetFile :=
  dir.rest ++ (if matchesGlob dataName then dir.data.toList else []) ++
    if matchesGlob tmpName then dir.tmp.toList else []

/-- The names of both files match. -/
theorem SymbolDir.files_eq (dir : SymbolDir) :
    dir.files = dir.rest ++ dir.data.toList ++ dir.tmp.toList := by
  rw [files, if_pos (by decide), if_pos (by decide)]

/-! ### Queries -/

inductive QueryError
  | noFiles
  | invalidFile
  deriving DecidableEq

/-- The rows of files, if they are all complete. -/
def rowsOf : List ParquetFile → Except QueryError (List OhlcvRow)
  | [] => .ok []
  | .inProgress :: _ => .error .invalidFile
  | .complete rows :: files => (rowsOf files).map (rows ++ ·)

/-- `read_parquet` of the files that match. -/
def readParquet (files : List ParquetFile) : Except QueryError (List OhlcvRow) :=
  if files = [] then .error .noFiles else rowsOf files

/-- What a query asks for. -/
structure Query where
  fromTs : Option ℤ
  toTs : Option ℤ
  limit : ℕ
  nextTs : Option ℤ

def Query.selects (q : Query) (r : OhlcvRow) : Bool :=
  MixedOhlcv.queryWhere q.fromTs q.toTs q.nextTs r.ts

/-- The answer, with the rows that were counted and those that were fetched. -/
def Query.answer (q : Query) (counted rows : List OhlcvRow) : MixedOhlcv.QueryResult :=
  let total := (counted.filter q.selects).length
  let candles := (MixedOhlcv.sortByTs (rows.filter q.selects)).take q.limit
  { candles
    nextTs :=
      if candles.length = q.limit ∧ q.limit < total then candles.getLast?.map OhlcvRow.ts else none
    totalInRange := total }

/-- A query, with the directory as it is when the rows are counted and when they are fetched. -/
def queryOhlcv (q : Query) (atCount atData : SymbolDir) :
    Except QueryError MixedOhlcv.QueryResult := do
  let counted ← readParquet atCount.files
  let rows ← readParquet atData.files
  pure (q.answer counted rows)

/-! ### Writers -/

/-- The steps that the writers of a month share: the temporary file is created, filled in some writes
and renamed; if the writing fails it is removed.  Without rows nothing is written. -/
def writeMonth (chunks : ℕ) (fails : Bool) (rows : List OhlcvRow) : Durable SymbolDir Unit :=
  if rows = [] then pure ()
  else do
    Durable.write fun dir => { dir with tmp := some .inProgress }
    fill chunks
    if fails then
      Durable.write fun dir => { dir with tmp := none }
    else do
      Durable.write fun dir => { dir with tmp := some (.complete rows) }
      Durable.write fun dir => { dir with data := dir.tmp, tmp := none }
where
  fill : ℕ → Durable SymbolDir Unit
    | 0 => pure ()
    | chunks + 1 => do
        Durable.write fun dir => { dir with tmp := some .inProgress }
        fill chunks

/-- What is written: the new rows of a month in the place of the old ones, if there is a file of
them, while the other months stay.  No two rows have the same minute, and there are new ones. -/
structure MonthWrite where
  rest : List (List OhlcvRow)
  old : Option (List OhlcvRow)
  new : List OhlcvRow
  new_ne_nil : new ≠ []
  nodup_old : ((rest.flatten ++ old.getD []).map OhlcvRow.ts).Nodup
  nodup_new : ((rest.flatten ++ new).map OhlcvRow.ts).Nodup

namespace MonthWrite

/-- The directory before the write. -/
def before (w : MonthWrite) : SymbolDir :=
  ⟨w.rest.map .complete, w.old.map .complete, none⟩

/-- The directory after the write. -/
def after (w : MonthWrite) : SymbolDir := ⟨w.rest.map .complete, some (.complete w.new), none⟩

/-- The directory while the temporary file is there. -/
def during (w : MonthWrite) (tmp : ParquetFile) : SymbolDir := { w.before with tmp := some tmp }

/-- The directory at one of the steps of a writer. -/
def Stage (w : MonthWrite) (dir : SymbolDir) : Prop :=
  dir = w.before ∨ dir = w.during .inProgress ∨ dir = w.during (.complete w.new) ∨ dir = w.after

end MonthWrite

/-! ### The directory at each step -/

theorem fill_survives (w : MonthWrite) (chunks : ℕ) :
    Survives (fun dir => dir = w.during .inProgress) (writeMonth.fill chunks)
      (fun _ dir => dir = w.during .inProgress) w.Stage := by
  induction chunks with
  | zero => exact Survives.pure fun _ h => h
  | succ chunks ih =>
      refine Survives.bind (Q := fun _ dir => dir = w.during .inProgress)
        (Survives.write (fun _ h => .inr (.inl h)) fun _ h => ?_) fun _ => ih
      rw [h]
      rfl

/-- What a query can meet of a write. -/
theorem writeMonth_survives (w : MonthWrite) (chunks : ℕ) (fails : Bool) :
    Survives (fun dir => dir = w.before) (writeMonth chunks fails w.new) (fun _ => w.Stage)
      w.Stage := by
  refine Survives.ite (fun h => absurd h w.new_ne_nil) fun _ => ?_
  refine Survives.bind (Q := fun _ dir => dir = w.during .inProgress)
    (Survives.write (fun _ h => .inl h) fun _ h => h ▸ rfl) fun _ => ?_
  refine (fill_survives w chunks).bind fun _ => Survives.ite (fun _ => ?_) fun _ => ?_
  · exact Survives.write (fun _ h => .inr (.inl h)) fun _ h => .inl (h ▸ rfl)
  · refine Survives.bind (Q := fun _ dir => dir = w.during (.complete w.new))
      (Survives.write (fun _ h => .inr (.inl h)) fun _ h => h ▸ rfl) fun _ => ?_
    exact Survives.write (fun _ h => .inr (.inr (.inl h))) fun _ h => .inr (.inr (.inr (h ▸ rfl)))

/-- The directory after any number of the writes. -/
theorem stage_left (w : MonthWrite) (chunks : ℕ) (fails : Bool) (crashIn : Option ℕ) :
    w.Stage ((writeMonth chunks fails w.new).left crashIn w.before) :=
  (writeMonth_survives w chunks fails).left rfl crashIn

/-! ### What is read -/

/-- The rows that can be read in a directory. -/
def SymbolDir.rows (dir : SymbolDir) : List OhlcvRow := dir.files.flatMap ParquetFile.rows

theorem rowsOf_of_forall {files : List ParquetFile} (h : ∀ f ∈ files, f ≠ .inProgress) :
    rowsOf files = .ok (files.flatMap ParquetFile.rows) := by
  induction files with
  | nil => rfl
  | cons f files ih =>
      cases f with
      | inProgress => exact absurd rfl (h _ List.mem_cons_self)
      | complete rows =>
          rw [rowsOf, ih fun g hg => h g (List.mem_cons_of_mem _ hg)]
          rfl

theorem rowsOf_of_mem {files : List ParquetFile} (h : .inProgress ∈ files) :
    rowsOf files = .error .invalidFile := by
  induction files with
  | nil => cases h
  | cons f files ih =>
      cases f with
      | inProgress => rfl
      | complete rows =>
          rw [rowsOf, ih ((List.mem_cons.1 h).resolve_left nofun)]
          rfl

theorem readParquet_of_mem {dir : SymbolDir} (h : dir.tmp = some .inProgress) :
    readParquet dir.files = .error .invalidFile := by
  have hmem : .inProgress ∈ dir.files := by
    rw [dir.files_eq, h]
    exact List.mem_append_right _ (List.mem_singleton_self _)
  rw [readParquet, if_neg (List.ne_nil_of_mem hmem), rowsOf_of_mem hmem]

namespace MonthWrite

variable {w : MonthWrite} {dir : SymbolDir}

theorem Stage.rest_eq (h : w.Stage dir) : dir.rest = w.rest.map .complete := by
  rcases h with rfl | rfl | rfl | rfl <;> rfl

theorem Stage.data_ne (h : w.Stage dir) : ∀ f ∈ dir.data.toList, f ≠ .inProgress := by
  have hold : ∀ f ∈ (w.old.map ParquetFile.complete).toList, f ≠ .inProgress := by
    intro f hf
    rw [Option.mem_toList, Option.map_eq_some_iff] at hf
    obtain ⟨rows, -, rfl⟩ := hf
    exact nofun
  rcases h with rfl | rfl | rfl | rfl
  · exact hold
  · exact hold
  · exact hold
  · intro f hf
    rw [List.mem_singleton.1 hf]
    exact nofun

/-- Without an unfinished file the files are read, if there are any. -/
theorem Stage.readParquet_eq (h : w.Stage dir) (htmp : dir.tmp ≠ some .inProgress) :
    readParquet dir.files = if dir.files = [] then .error .noFiles else .ok dir.rows := by
  rw [readParquet, SymbolDir.rows]
  congr 1
  refine rowsOf_of_forall fun f hf => ?_
  rw [dir.files_eq, h.rest_eq] at hf
  rcases List.mem_append.1 hf with hf | hf
  · rcases List.mem_append.1 hf with hf | hf
    · obtain ⟨rows, -, rfl⟩ := List.mem_map.1 hf
      exact nofun
    · exact h.data_ne f hf
  · rintro rfl
    rw [Option.mem_toList] at hf
    exact htmp hf

theorem flatMap_rows_map (ls : List (List OhlcvRow)) :
    (ls.map ParquetFile.complete).flatMap ParquetFile.rows = ls.flatten := by
  rw [List.flatMap_map, List.flatMap_def]
  exact congrArg List.flatten (List.map_id ls)

/-- What there is to be read in the directory of a write: the other months, the file of the month
and the temporary file. -/
theorem Stage.rows_eq (h : w.Stage dir) :
    dir.rows = w.rest.flatten ++ dir.data.toList.flatMap ParquetFile.rows ++
      dir.tmp.toList.flatMap ParquetFile.rows := by
  rw [SymbolDir.rows, dir.files_eq, h.rest_eq, List.flatMap_append, List.flatMap_append,
    flatMap_rows_map]

theorem rows_before (w : MonthWrite) : w.before.rows = w.rest.flatten ++ w.old.getD [] := by
  rw [Stage.rows_eq (w := w) (.inl rfl)]
  cases hold : w.old <;> simp [before, hold, ParquetFile.rows]

theorem rows_after (w : MonthWrite) : w.after.rows = w.rest.flatten ++ w.new := by
  rw [Stage.rows_eq (w := w) (.inr (.inr (.inr rfl)))]
  simp [after, ParquetFile.rows]

theorem rows_during (w : MonthWrite) :
    (w.during (.complete w.new)).rows = w.rest.flatten ++ w.old.getD [] ++ w.new := by
  rw [Stage.rows_eq (w := w) (.inr (.inr (.inl rfl)))]
  cases hold : w.old <;> simp [during, before, hold, ParquetFile.rows]

end MonthWrite

/-! ### Which queries get the old or the new content -/

/-- The rows that a query is answered from are fetched and counted. -/
theorem MonthWrite.Stage.queryOhlcv_eq {w : MonthWrite} {atCount atData : SymbolDir}
    (hc : w.Stage atCount) (hd : w.Stage atData) (hcount : atCount.tmp ≠ some .inProgress)
    (hdata : atData.tmp ≠ some .inProgress) (hfc : atCount.files ≠ []) (hfd : atData.files ≠ [])
    (q : Query) : queryOhlcv q atCount atData = .ok (q.answer atCount.rows atData.rows) := by
  rw [queryOhlcv, hc.readParquet_eq hcount, hd.readParquet_eq hdata, if_neg hfc, if_neg hfd]
  rfl

/-- The answer of a query is that of the old or of the new content, and no minute is repeated. -/
structure Sound (w : MonthWrite) (q : Query)
    (result : Except QueryError MixedOhlcv.QueryResult) : Prop where
  whole : result = queryOhlcv q w.before w.before ∨ result = queryOhlcv q w.after w.after
  unique : ∀ r, result = .ok r → (r.candles.map OhlcvRow.ts).Nodup

/-- Neither read meets an unfinished temporary file, the second does not meet a finished one beside
old rows, and both meet the same minutes.  (Where there is no file at all the query fails as it does
without a writer.) -/
def Undisturbed (atCount atData : SymbolDir) : Prop :=
  atCount.tmp ≠ some .inProgress ∧
    (atCount.files ≠ [] → atData.tmp ≠ some .inProgress ∧
      (atData.files ≠ [] →
        (atData.tmp = none ∨ atData.data.toList.flatMap ParquetFile.rows = []) ∧
          (atCount.rows.map OhlcvRow.ts).Perm (atData.rows.map OhlcvRow.ts)))

/-- How many rows are selected depends on their minutes only. -/
theorem Query.length_selected (q : Query) (rows : List OhlcvRow) :
    (rows.filter q.selects).length =
      (rows.map OhlcvRow.ts).countP (MixedOhlcv.queryWhere q.fromTs q.toTs q.nextTs) := by
  rw [← List.countP_eq_length_filter, List.countP_map]
  rfl

theorem Query.answer_congr (q : Query) {counted rows : List OhlcvRow}
    (h : (counted.map OhlcvRow.ts).Perm (rows.map OhlcvRow.ts)) :
    q.answer counted rows = q.answer rows rows := by
  have hlen : (counted.filter q.selects).length = (rows.filter q.selects).length := by
    rw [q.length_selected, q.length_selected, h.countP_eq]
  rw [answer, answer, hlen]

theorem Query.nodup_answer (q : Query) (counted : List OhlcvRow) {rows : List OhlcvRow}
    (h : (rows.map OhlcvRow.ts).Nodup) : ((q.answer counted rows).candles.map OhlcvRow.ts).Nodup := by
  have hperm : ((MixedOhlcv.sortByTs (rows.filter q.selects)).map OhlcvRow.ts).Perm
      ((rows.filter q.selects).map OhlcvRow.ts) := (MixedOhlcv.sortByTs_perm _).map _
  refine (hperm.nodup_iff.2 (h.sublist (List.filter_sublist.map _))).sublist ?_
  exact (List.take_sublist _ _).map _

theorem Query.length_answer (q : Query) (counted rows : List OhlcvRow) :
    (q.answer counted rows).candles.length = min q.limit (rows.filter q.selects).length := by
  rw [answer, List.length_take, (MixedOhlcv.sortByTs_perm _).length_eq]

namespace MonthWrite.Stage

variable {w : MonthWrite} {dir : SymbolDir}

/-- Once the writer has begun there is a file. -/
theorem eq_before_of_files (h : w.Stage dir) (hfiles : dir.files = []) : dir = w.before := by
  rcases h with rfl | rfl | rfl | rfl
  · rfl
  all_goals
    rw [SymbolDir.files_eq] at hfiles
    simp [during, after] at hfiles

/-- Without an unfinished file, and without a finished one beside old rows, there are the rows of
before or of after. -/
theorem rows_cases (h : w.Stage dir) (htmp : dir.tmp ≠ some .inProgress)
    (hold : dir.tmp = none ∨ dir.data.toList.flatMap ParquetFile.rows = []) :
    dir = w.before ∨ dir.rows = w.after.rows := by
  rcases h with rfl | rfl | rfl | rfl
  · exact .inl rfl
  · exact absurd rfl htmp
  · right
    have hdata : (w.during (.complete w.new)).data.toList.flatMap ParquetFile.rows = [] :=
      hold.resolve_left nofun
    rw [Stage.rows_eq (w := w) (.inr (.inr (.inl rfl))), hdata, rows_after]
    simp [during, ParquetFile.rows]
  · exact .inr rfl

end MonthWrite.Stage

section

variable {w : MonthWrite} {atCount atData : SymbolDir}

theorem queryOhlcv_of_no_files (hc : w.Stage atCount) (hcount : atCount.tmp ≠ some .inProgress)
    (hfiles : atCount.files = []) (q : Query) :
    queryOhlcv q atCount atData = .error .noFiles := by
  rw [queryOhlcv, hc.readParquet_eq hcount, if_pos hfiles]
  rfl

theorem queryOhlcv_of_no_data (hc : w.Stage atCount) (hd : w.Stage atData)
    (hcount : atCount.tmp ≠ some .inProgress) (hdata : atData.tmp ≠ some .inProgress)
    (hfiles : atCount.files ≠ []) (hfiles' : atData.files = []) (q : Query) :
    queryOhlcv q atCount atData = .error .noFiles := by
  rw [queryOhlcv, hc.readParquet_eq hcount, if_neg hfiles, hd.readParquet_eq hdata, if_pos hfiles']
  rfl

/-- Without any file the query fails, as it does before the write. -/
theorem sound_of_noFiles {q : Query} {result : Except QueryError MixedOhlcv.QueryResult}
    (hfiles : w.before.files = []) (hresult : result = .error .noFiles) : Sound w q result := by
  refine ⟨.inl ?_, fun r hr => by cases hresult.symm.trans hr⟩
  rw [hresult, queryOhlcv_of_no_files (w := w) (.inl rfl) nofun hfiles]

theorem after_files_ne_nil (w : MonthWrite) : w.after.files ≠ [] := by
  rw [SymbolDir.files_eq]
  simp [MonthWrite.after]

theorem stage_after (w : MonthWrite) : w.Stage w.after := .inr (.inr (.inr rfl))

theorem sound_of_undisturbed (hc : w.Stage atCount) (hd : w.Stage atData)
    (h : Undisturbed atCount atData) (q : Query) : Sound w q (queryOhlcv q atCount atData) := by
  obtain ⟨hcount, h⟩ := h
  by_cases hfiles : atCount.files = []
  · obtain rfl := hc.eq_before_of_files hfiles
    exact sound_of_noFiles hfiles (queryOhlcv_of_no_files hc hcount hfiles q)
  obtain ⟨hdata, h⟩ := h hfiles
  by_cases hfiles' : atData.files = []
  · obtain rfl := hd.eq_before_of_files hfiles'
    exact sound_of_noFiles hfiles' (queryOhlcv_of_no_data hc hd hcount hdata hfiles hfiles' q)
  obtain ⟨hold, hperm⟩ := h hfiles'
  rw [hc.queryOhlcv_eq hd hcount hdata hfiles hfiles', q.answer_congr hperm]
  rcases hd.rows_cases hdata hold with rfl | hrows
  · refine ⟨.inl (hd.queryOhlcv_eq hd hdata hdata hfiles' hfiles' q).symm, fun r hr => ?_⟩
    cases hr
    exact q.nodup_answer _ (w.rows_before ▸ w.nodup_old)
  · have hne := after_files_ne_nil w
    refine ⟨.inr ?_, fun r hr => ?_⟩
    · rw [(stage_after w).queryOhlcv_eq (stage_after w) nofun nofun hne hne, hrows]
    · cases hr
      rw [hrows]
      exact q.nodup_answer _ (w.rows_after ▸ w.nodup_new)

/-- A query that does not fail where neither content makes it fail. -/
theorem answer_of_sound {q : Query} {result : MixedOhlcv.QueryResult}
    (h : Sound w q (.ok result)) :
    result = q.answer w.before.rows w.before.rows ∨ result = q.answer w.after.rows w.after.rows := by
  have hb : w.Stage w.before := .inl rfl
  rcases h.whole with h | h
  · by_cases hfiles : w.before.files = []
    · rw [queryOhlcv_of_no_files hb nofun hfiles] at h
      cases h
    · rw [hb.queryOhlcv_eq hb nofun nofun hfiles hfiles] at h
      exact .inl (Except.ok.inj h)
  · have hne := after_files_ne_nil w
    rw [(stage_after w).queryOhlcv_eq (stage_after w) nofun nofun hne hne] at h
    exact .inr (Except.ok.inj h)

/-- No content has an unfinished file. -/
theorem not_sound_invalidFile {q : Query} : ¬ Sound w q (.error .invalidFile) := by
  have hb : w.Stage w.before := .inl rfl
  intro h
  rcases h.whole with h | h
  · by_cases hfiles : w.before.files = []
    · rw [queryOhlcv_of_no_files hb nofun hfiles] at h
      cases h
    · rw [hb.queryOhlcv_eq hb nofun nofun hfiles hfiles] at h
      cases h
  · have hne := after_files_ne_nil w
    rw [(stage_after w).queryOhlcv_eq (stage_after w) nofun nofun hne hne] at h
    cases h

/-- A query for everything. -/
def Query.everything (limit : ℕ) : Query := ⟨none, none, limit, none⟩

/-- A query for one minute. -/
def Query.minute (t : ℤ) (limit : ℕ) : Query := ⟨some t, some (t + 1), limit, none⟩

theorem Query.length_everything {limit : ℕ} (counted : List OhlcvRow) {rows : List OhlcvRow}
    (h : rows.length ≤ limit) :
    ((Query.everything limit).answer counted rows).candles.length = rows.length := by
  have hall : rows.filter (Query.everything limit).selects = rows :=
    List.filter_eq_self.2 fun _ _ => rfl
  rw [Query.length_answer, hall]
  exact min_eq_right h

theorem Query.length_minute (t : ℤ) (limit : ℕ) (rows : List OhlcvRow) :
    (rows.filter (Query.minute t limit).selects).length = (rows.map OhlcvRow.ts).count t := by
  rw [Query.length_selected, List.count]
  refine List.countP_congr fun ts _ => ?_
  simp only [Query.minute, MixedOhlcv.queryWhere, MixedOhlcv.fromOk, MixedOhlcv.toOk,
    Bool.and_eq_true, decide_eq_true_eq, beq_iff_eq]
  omega

/-- A finished temporary file beside old rows is seen by the query for everything. -/
theorem data_of_sound (hc : w.Stage atCount) (hd : w.Stage atData)
    (hcount : atCount.tmp ≠ some .inProgress) (hdata : atData.tmp ≠ some .inProgress)
    (hfiles : atCount.files ≠ []) (hfiles' : atData.files ≠ [])
    (h : ∀ q, Sound w q (queryOhlcv q atCount atData)) :
    atData.tmp = none ∨ atData.data.toList.flatMap ParquetFile.rows = [] := by
  by_contra hnot
  rw [not_or] at hnot
  obtain rfl : atData = w.during (.complete w.new) := by
    rcases hd with rfl | rfl | rfl | rfl
    · exact absurd rfl hnot.1
    · exact absurd rfl hdata
    · rfl
    · exact absurd rfl hnot.1
  have hold : w.old.getD [] ≠ [] := by
    intro hold
    refine hnot.2 ?_
    cases hw : w.old with
    | none => simp [MonthWrite.during, MonthWrite.before, hw]
    | some rows =>
        rw [hw] at hold
        simpa [MonthWrite.during, MonthWrite.before, hw, ParquetFile.rows] using hold
  have hnew := List.length_pos_of_ne_nil w.new_ne_nil
  have holdpos := List.length_pos_of_ne_nil hold
  -- all rows of both contents are fetched
  let q := Query.everything (w.during (.complete w.new)).rows.length
  have hlen : ((q.answer atCount.rows (w.during (.complete w.new)).rows)).candles.length =
      w.rest.flatten.length + (w.old.getD []).length + w.new.length := by
    rw [Query.length_everything _ le_rfl, w.rows_during, List.length_append, List.length_append]
  have hle : ∀ rows, (q.answer rows rows).candles.length ≤ rows.length := fun rows => by
    rw [Query.length_answer]
    exact (min_le_right _ _).trans (List.length_filter_le _ _)
  have hq := h q
  rw [hc.queryOhlcv_eq hd hcount hdata hfiles hfiles'] at hq
  rcases answer_of_sound hq with heq | heq
  · have hbefore := hle w.before.rows
    rw [← heq, hlen, w.rows_before, List.length_append] at hbefore
    omega
  · have hafter := hle w.after.rows
    rw [← heq, hlen, w.rows_after, List.length_append] at hafter
    omega

/-- Minutes that only one of the reads meets are seen by the queries for them. -/
theorem perm_of_sound (hc : w.Stage atCount) (hd : w.Stage atData)
    (hcount : atCount.tmp ≠ some .inProgress) (hdata : atData.tmp ≠ some .inProgress)
    (hfiles : atCount.files ≠ []) (hfiles' : atData.files ≠ [])
    (h : ∀ q, Sound w q (queryOhlcv q atCount atData)) :
    (atCount.rows.map OhlcvRow.ts).Perm (atData.rows.map OhlcvRow.ts) := by
  refine List.perm_iff_count.2 fun t => ?_
  -- the limit is large enough for all rows that there are
  let limit := atData.rows.length + w.before.rows.length + w.after.rows.length
  let q := Query.minute t limit
  have hmin : ∀ rows : List OhlcvRow, rows.length ≤ limit → ∀ counted,
      (q.answer counted rows).candles.length = (rows.map OhlcvRow.ts).count t := by
    intro rows hrows counted
    rw [Query.length_answer, Query.length_minute]
    refine min_eq_right (le_trans List.count_le_length ?_)
    rwa [List.length_map]
  have htotal : ∀ counted rows, (q.answer counted rows).totalInRange =
      (counted.map OhlcvRow.ts).count t := fun counted rows => Query.length_minute t limit counted
  have hq := h q
  rw [hc.queryOhlcv_eq hd hcount hdata hfiles hfiles'] at hq
  -- in the answer from one content as many rows are counted as are fetched
  have hequal : ∀ rows : List OhlcvRow, rows.length ≤ limit →
      q.answer atCount.rows atData.rows = q.answer rows rows →
      (atCount.rows.map OhlcvRow.ts).count t = (atData.rows.map OhlcvRow.ts).count t := by
    intro rows hrows heq
    rw [← htotal atCount.rows atData.rows, heq, htotal, ← hmin rows hrows rows, ← heq,
      hmin atData.rows (by omega)]
  rcases answer_of_sound hq with heq | heq
  · exact hequal _ (by omega) heq
  · exact hequal _ (by omega) heq

theorem undisturbed_of_sound (hc : w.Stage atCount) (hd : w.Stage atData)
    (h : ∀ q, Sound w q (queryOhlcv q atCount atData)) : Undisturbed atCount atData := by
  have hq := h (Query.everything 0)
  have hcount : atCount.tmp ≠ some .inProgress := by
    intro htmp
    refine not_sound_invalidFile (w := w) (q := Query.everything 0) ?_
    rwa [queryOhlcv, readParquet_of_mem htmp] at hq
  refine ⟨hcount, fun hfiles => ?_⟩
  have hread : readParquet atCount.files = .ok atCount.rows := by
    rw [hc.readParquet_eq hcount, if_neg hfiles]
  have hdata : atData.tmp ≠ some .inProgress := by
    intro htmp
    refine not_sound_invalidFile (w := w) (q := Query.everything 0) ?_
    rwa [queryOhlcv, hread, readParquet_of_mem htmp] at hq
  exact ⟨hdata, fun hfiles' => ⟨data_of_sound hc hd hcount hdata hfiles hfiles' h,
    perm_of_sound hc hd hcount hdata hfiles hfiles' h⟩⟩

/-- Whatever steps of a writer lie before the two reads of a query, in every query each gets the
old or the new content if and only if the reads are undisturbed. -/
theorem sound_iff_undisturbed (w : MonthWrite) (chunks : ℕ) (fails : Bool) (beforeCount between : ℕ) :
    (∀ q, Sound w q (queryOhlcv q
      ((writeMonth chunks fails w.new).left (some beforeCount) w.before)
      ((writeMonth chunks fails w.new).left (some (beforeCount + between)) w.before))) ↔
      Undisturbed ((writeMonth chunks fails w.new).left (some beforeCount) w.before)
        ((writeMonth chunks fails w.new).left (some (beforeCount + between)) w.before) := by
  have hc := stage_left w chunks fails (some beforeCount)
  have hd := stage_left w chunks fails (some (beforeCount + between))
  exact ⟨undisturbed_of_sound hc hd, sound_of_undisturbed hc hd⟩

end

/-- A row for a minute. -/
def exampleRow (ts : ℤ) (price : ℚ) : OhlcvRow := ⟨ts, price, price, price, price, 1⟩

/-- The only month is written again, with another minute. -/
def exampleWrite : MonthWrite where
  rest := []
  old := some [exampleRow 0 1]
  new := [exampleRow 0 1, exampleRow 60 2]
  new_ne_nil := by decide
  nodup_old := by decide
  nodup_new := by decide

/-- A query in the middle of the write fails, and one just before the renaming gets the first minute
twice. -/
theorem unsound_while_writing :
    ¬ Sound exampleWrite (Query.everything 10)
        (queryOhlcv (Query.everything 10)
          ((writeMonth 0 false exampleWrite.new).left (some 1) exampleWrite.before)
          ((writeMonth 0 false exampleWrite.new).left (some (1 + 0)) exampleWrite.before)) ∧
      ¬ Sound exampleWrite (Query.everything 10)
        (queryOhlcv (Query.everything 10)
          ((writeMonth 0 false exampleWrite.new).left (some 2) exampleWrite.before)
          ((writeMonth 0 false exampleWrite.new).left (some (2 + 0)) exampleWrite.before)) := by
  constructor
  · have hquery : queryOhlcv (Query.everything 10)
        ((writeMonth 0 false exampleWrite.new).left (some 1) exampleWrite.before)
        ((writeMonth 0 false exampleWrite.new).left (some (1 + 0)) exampleWrite.before) =
          .error .invalidFile := by decide
    rw [hquery]
    exact not_sound_invalidFile
  · intro h
    have hquery : queryOhlcv (Query.everything 10)
        ((writeMonth 0 false exampleWrite.new).left (some 2) exampleWrite.before)
        ((writeMonth 0 false exampleWrite.new).left (some (2 + 0)) exampleWrite.before) =
          .ok ⟨[exampleRow 0 1, exampleRow 0 1, exampleRow 60 2], none, 3⟩ := by decide
    exact absurd (h.unique _ hquery) (by decide)

end ParquetReaders
