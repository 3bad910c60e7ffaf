/-
**A cache of candles as a last-write-wins map.**

The client keeps what the service answered in a text file for each month of a symbol.  An answer is
merged into the files of its months, a row that is there already being replaced; offline, the rows of
a range are gathered from all the files.  So a symbol has a map from minutes to the last row that was
answered, whose parts are the files.  The bounds of a range count in whole seconds, and what is stored
under a symbol is what is in the directory that its name leads to.

How numbers are written and read is a parameter, of which it is only asked that a number that is
written is read back.

Main definitions:

* `DukascopyCache.readCacheFile`, `DukascopyCache.writeCacheFile` — the file of a month;
* `DukascopyCache.readCacheRange`, `DukascopyCache.persistToCache` — reading a range, and merging;
* `DukascopyCache.fetchCandles` — a call of the client; `DukascopyCache.run` — a history of calls;
* `DukascopyCache.latest` — the row that the last answer with a minute has.

Main results:

* `DukascopyCache.readCacheFile_write` — what is written is read back;
* `DukascopyCache.Holds.persist` — merging overwrites the map;
* `DukascopyCache.fetchCandles_offline` — a read after any history.
-/

import Brokerage.Calendar
import Brokerage.Dict
import Brokerage.StableSort
import Brokerage.TextLines

set_option relaxedAutoImplicit false
set_option autoImplicit false

namespace DukascopyCache

open StableSort

/-! ### Numbers and rows -/

/-- The numbers of the rows: how they are written and read, and the comparisons with zero, which both
fail for what is not a number. -/
structure Floats (F : Type) where
  repr : F → List Char
  parse : List Char → Option F
  zero : F
  isZero : F → Bool
  isNeg : F → Bool
  isNonneg : F → Bool
  parse_repr : ∀ x, parse (repr x) = some x
  plain : ∀ x, ∀ c ∈ repr x, Text.isSpace c = false ∧ c ≠ ','
  isNonneg_zero : isNonneg zero = true
  not_isNonneg : ∀ x, isNeg x = true → isNonneg x = false

/-- The prices and the volume of a minute. -/
structure Bar (F : Type) where
  open_ : F
  high : F
  low : F
  close : F
  volume : F
  deriving DecidableEq

/-- A row: the second its minute starts at, its prices and volume, and the symbol. -/
structure Row (F : Type) where
  ts : ℤ
  bar : Bar F
  symbol : String
  deriving DecidableEq

/-- The symbols that are supported, and their instruments. -/
def SYMBOL_TO_INSTRUMENT : List (String × String) :=
  [("EURUSD", "INSTRUMENT_FX_MAJORS_EUR_USD"), ("XAUUSD", "INSTRUMENT_FX_METALS_XAU_USD")]

/-- The first line of a file. -/
def CSV_HEADER : List Char := "ts,open,high,low,close,volume".toList

/-- A symbol in upper case, with the alias replaced. -/
def normalized (symbol : String) : String :=
  if Text.upper symbol = "XAU" then "XAUUSD" else Text.upper symbol

/-- The instrument of a symbol; nothing if it is not supported. -/
def getInstrument (symbol : String) : Option String :=
  SYMBOL_TO_INSTRUMENT.lookup (normalized symbol)

theorem normalized_normalized (symbol : String) :
    normalized (normalized symbol) = normalized symbol := by
  unfold normalized
  split
  · decide
  · rename_i h
    rw [Text.upper_upper, if_neg h]

variable {F : Type} (fl : Floats F)

/-! ### The file of a month -/

/-- The row of a line; nothing if it has too few fields, or one that is not a number. -/
def readLine (symbol : String) (line : List Char) : Option (Row F) :=
  match line.splitOn ',' with
  | ts :: open_ :: high :: low :: close :: volume :: _ => do
      let ts ← Text.toInt? (String.ofList ts)
      let open_ ← fl.parse open_
      let high ← fl.parse high
      let low ← fl.parse low
      let close ← fl.parse close
      let volume ← fl.parse volume
      pure ⟨ts, ⟨open_, high, low, close, if fl.isNonneg volume then volume else fl.zero⟩, symbol⟩
  | _ => none

/-- The rows of a file, if there is one. -/
def readCacheFile (file : Option (List Char)) (symbol : String) : List (Row F) :=
  match file with
  | none => []
  | some file =>
      (Text.fileLines file).zipIdx.filterMap fun p =>
        let line := Text.stripChars p.1
        if line = [] ∨ (p.2 = 0 ∧ line = CSV_HEADER) then none else readLine fl symbol line

/-- The rows without those at a second that was seen before. -/
def uniqueFrom (seen : List ℤ) : List (Row F) → List (Row F)
  | [] => []
  | r :: rows =>
      if r.ts ∈ seen then uniqueFrom seen rows else r :: uniqueFrom (r.ts :: seen) rows

/-- The line of a row. -/
def writeLine (r : Row F) : List Char :=
  [','].intercalate
    [(toString r.ts).toList, fl.repr r.bar.open_, fl.repr r.bar.high, fl.repr r.bar.low,
      fl.repr r.bar.close, fl.repr r.bar.volume]

/-- The file of some rows. -/
def writeCacheFile (rows : List (Row F)) : List Char :=
  Text.unlines (CSV_HEADER :: (uniqueFrom [] (sortBy Row.ts rows)).map (writeLine fl))

/-! ### The cache -/

/-- The files of a symbol, by their months. -/
abbrev Months := Dict ℤ (List Char)

/-- Where the files are: the directory that the name of a symbol leads to, and the order in which the
files of a directory are listed. -/
structure Disk (D : Type) where
  dir : String → D
  listing : Months → List ℤ
  perm : ∀ months, (listing months).Perm months.keys

variable {D : Type} [DecidableEq D] (disk : Disk D)

/-- The rows of a symbol in a range of instants, from all of its files. -/
def readCacheRange (cache : D → Months) (symbol : String) (start end_ : ℤ) : List (Row F) :=
  let months := cache (disk.dir (normalized symbol))
  let startTs := start.tdiv 1000000
  let endTs := end_.tdiv 1000000
  let allRows := (disk.listing months).flatMap fun month =>
    (readCacheFile fl (months.get? month) symbol).filter fun r => startTs ≤ r.ts ∧ r.ts < endTs
  uniqueFrom [] (sortBy Row.ts allRows)

/-- The rows of a file and of an answer, which replace those at their seconds. -/
def combined (existing monthRows : List (Row F)) : Dict ℤ (Row F) :=
  (Dict.empty.setAll (existing.map fun x => (x.ts, x))).setAll (monthRows.map fun x => (x.ts, x))

/-- The files after the rows of a month were merged. -/
def mergeMonth (symbol : String) (months : Months) (month : ℤ) (monthRows : List (Row F)) : Months :=
  let existing := readCacheFile fl (months.get? month) symbol
  months.set month (writeCacheFile fl (combined existing monthRows).values)

/-- The month of a row; nothing if the date is out of range. -/
def datedRow (r : Row F) : Option (ℤ × Row F) :=
  (utcFromTimestamp (1000000 * r.ts)).map fun dt => (dt.month, r)

/-- Merging rows into the files of a symbol. -/
def persistToCache (cache : D → Months) (symbol : String) (rows : List (Row F)) :
    Option (D → Months) := do
  let dated ← rows.mapM datedRow
  let byMonth := Dict.group Prod.fst Prod.snd dated
  let d := disk.dir (normalized symbol)
  pure (Function.update cache d
    (byMonth.entries.foldl (fun months e => mergeMonth fl symbol months e.1 e.2) (cache d)))

/-! ### Calls -/

/-- A row of the frame that the service answers: its instant, if there is one, and the cells, which
may be missing. -/
structure DataRow (F : Type) where
  timestamp : Option ℤ
  open_ : Option F
  high : Option F
  low : Option F
  close : Option F
  volume : Option F

/-- What the service does: it fails, or answers a frame, which may be empty. -/
inductive Answer (F : Type)
  | failure
  | frame (df : List (DataRow F))

/-- The number in a cell, a missing one being zero. -/
def cell (x : Option F) : F :=
  match x with
  | none => fl.zero
  | some x => if fl.isZero x then fl.zero else x

/-- The rows of a frame. -/
def dataframeToRows (df : List (DataRow F)) (symbol : String) : List (Row F) :=
  df.filterMap fun row =>
    row.timestamp.map fun t =>
      let v := cell fl row.volume
      ⟨t.tdiv 1000000 / 60 * 60,
        ⟨cell fl row.open_, cell fl row.high, cell fl row.low, cell fl row.close,
          if fl.isNeg v then fl.zero else v⟩, symbol⟩

/-- Asking the service, which is only done for the supported symbols. -/
def fetchFromApi (symbol : String) (answer : Answer F) : Option (List (Row F)) :=
  match getInstrument symbol, answer with
  | some _, .frame df => some (dataframeToRows fl df symbol)
  | _, _ => none

/-- A call of the client: the symbol, the instants of the range, whether the service is to be left
out, and what it would do. -/
structure Call (F : Type) where
  symbol : String
  start : ℤ
  end_ : ℤ
  useCacheOnly : Bool
  answer : Answer F

/-- The second at which the first minute of a call starts. -/
def Call.startTs (call : Call F) : ℤ := call.start.tdiv 1000000 / 60 * 60

/-- The second at which the minute of the end of a call starts. -/
def Call.endTs (call : Call F) : ℤ := call.end_.tdiv 1000000 / 60 * 60

/-- The rows that the service returns in a call; nothing if it fails, or a date is out of range. -/
def Call.fetched (call : Call F) : Option (List (Row F)) := do
  let _ ← utcFromTimestamp (1000000 * call.startTs)
  let _ ← utcFromTimestamp (1000000 * call.endTs)
  fetchFromApi fl (normalized call.symbol) call.answer

/-- A call: the rows it returns, nothing if it raises, and the cache it leaves. -/
def fetchCandles (cache : D → Months) (call : Call F) : Option (List (Row F)) × (D → Months) :=
  let s := normalized call.symbol
  let cached := readCacheRange fl disk cache s call.start call.end_
  if call.useCacheOnly then (some cached, cache)
  else
    let failed := (if cached.isEmpty then none else some cached, cache)
    match call.fetched fl with
    | none => failed
    | some [] => (some cached, cache)
    | some (r :: rows) =>
        match persistToCache fl disk cache s (r :: rows) with
        | none => failed
        | some cache' => (some (r :: rows), cache')

/-- The cache after some calls, which starts empty. -/
def run (calls : List (Call F)) : D → Months :=
  calls.foldl (fun cache call => (fetchCandles fl disk cache call).2) fun _ => Dict.empty

/-! ### What the cache is to hold -/

/-- The rows that the service returned in a call, if it was asked. -/
def Call.returned (call : Call F) : List (Row F) :=
  if call.useCacheOnly then [] else (call.fetched fl).getD []

/-- The service returns only minutes that were asked for. -/
def Call.InRequest (call : Call F) : Prop :=
  ∀ r ∈ call.returned fl, call.startTs ≤ r.ts ∧ r.ts < call.endTs

/-- The rows that were returned for the symbols of a directory, oldest first. -/
def returnedIn (calls : List (Call F)) (d : D) : List (Row F) :=
  (calls.filter fun call => disk.dir (normalized call.symbol) = d).flatMap (Call.returned fl)

/-- The row that the last answer with a minute has. -/
def latest (calls : List (Call F)) (d : D) (t : ℤ) : Option (Row F) :=
  Dict.latest Row.ts (returnedIn fl disk calls d) t

/-- The bar of a row as it is read back: a volume that is not a number is zero. -/
def Bar.asRead (b : Bar F) : Bar F :=
  { b with volume := if fl.isNonneg b.volume then b.volume else fl.zero }

/-! ### What is written is read back -/

variable {fl}

theorem Bar.asRead_asRead (b : Bar F) : (b.asRead fl).asRead fl = b.asRead fl := by
  unfold asRead
  by_cases h : fl.isNonneg b.volume
  · simp [h]
  · simp [h, fl.isNonneg_zero]

/-- The row as it is read back for a symbol. -/
def Row.asRead (fl : Floats F) (symbol : String) (r : Row F) : Row F :=
  ⟨r.ts, r.bar.asRead fl, symbol⟩

theorem plain_toString (n : ℤ) {c : Char} (h : c ∈ (toString n).toList) :
    Text.isSpace c = false ∧ c ≠ ',' := by
  have hdigits : ∀ m : ℕ, c ∈ (toString m).toList → Text.isSpace c = false ∧ c ≠ ',' := by
    intro m hm
    refine ⟨Text.isSpace_of_mem_toString hm, ?_⟩
    rintro rfl
    exact absurd (Text.isDigit_of_mem_toString hm) (by decide)
  cases n with
  | ofNat m => exact hdigits m h
  | negSucc m =>
      have hlist : (toString (Int.negSucc m)).toList = '-' :: (toString (m + 1)).toList :=
        String.toList_append
      rw [hlist] at h
      rcases List.mem_cons.1 h with rfl | h
      · decide
      · exact hdigits _ h

/-- The fields of a line. -/
def fields (fl : Floats F) (r : Row F) : List (List Char) :=
  [(toString r.ts).toList, fl.repr r.bar.open_, fl.repr r.bar.high, fl.repr r.bar.low,
    fl.repr r.bar.close, fl.repr r.bar.volume]

theorem plain_fields {r : Row F} {field : List Char} (h : field ∈ fields fl r) {c : Char}
    (hc : c ∈ field) : Text.isSpace c = false ∧ c ≠ ',' := by
  rcases List.mem_cons.1 h with rfl | h
  · exact plain_toString _ hc
  · simp only [List.mem_cons, List.not_mem_nil, or_false] at h
    rcases h with rfl | rfl | rfl | rfl | rfl <;> exact fl.plain _ _ hc

theorem splitOn_writeLine (r : Row F) : (writeLine fl r).splitOn ',' = fields fl r :=
  List.splitOn_intercalate ',' (fun _ hfield hcomma => (plain_fields hfield hcomma).2 rfl)
    (List.cons_ne_nil _ _)

/-- There is no white space in a line. -/
theorem isSpace_writeLine {r : Row F} {c : Char} (h : c ∈ writeLine fl r) :
    Text.isSpace c = false := by
  have hmem : ∀ l : List (List Char), c ∈ [','].intercalate l → c = ',' ∨ ∃ field ∈ l, c ∈ field := by
    intro l
    induction l with
    | nil => rintro ⟨⟩
    | cons field l ih =>
        intro h
        by_cases hl : l = []
        · subst hl
          exact .inr ⟨field, List.mem_cons_self, by simpa using h⟩
        · rw [List.intercalate_cons_of_ne_nil hl, List.append_assoc] at h
          rcases List.mem_append.1 h with h | h
          · exact .inr ⟨field, List.mem_cons_self, h⟩
          · rcases List.mem_cons.1 h with rfl | h
            · exact .inl rfl
            · rcases ih h with hc | ⟨field', hfield', hc⟩
              · exact .inl hc
              · exact .inr ⟨field', List.mem_cons_of_mem _ hfield', hc⟩
  rcases hmem _ h with rfl | ⟨field, hfield, hc⟩
  · decide
  · exact (plain_fields hfield hc).1

theorem readLine_writeLine (symbol : String) (r : Row F) :
    readLine fl symbol (writeLine fl r) = some (r.asRead fl symbol) := by
  rw [readLine, splitOn_writeLine]
  simp only [fields, String.ofList_toList, Text.toInt?_toString_int, fl.parse_repr]
  rfl

/-- No line is skipped behind the first one. -/
theorem filterMap_writeLine (symbol : String) (rows : List (Row F)) {n : ℕ} (hn : n ≠ 0) :
    (((rows.map (writeLine fl)).zipIdx n).filterMap fun p =>
        let line := Text.stripChars p.1
        if line = [] ∨ (p.2 = 0 ∧ line = CSV_HEADER) then none else readLine fl symbol line) =
      rows.map (Row.asRead fl symbol) := by
  induction rows generalizing n with
  | nil => rfl
  | cons r rows ih =>
      have hstrip : Text.stripChars (writeLine fl r) = writeLine fl r :=
        Text.stripChars_of_isSpace fun _ hc => isSpace_writeLine hc
      have hne : writeLine fl r ≠ [] := fun hnil => by
        have hsplit : (writeLine fl r).splitOn ',' = fields fl r := splitOn_writeLine r
        rw [hnil, List.splitOn_nil, fields] at hsplit
        exact absurd (List.cons.inj hsplit).2 (List.cons_ne_nil _ _).symm
      have hif : ¬ (writeLine fl r = [] ∨ (n = 0 ∧ writeLine fl r = CSV_HEADER)) := by
        rintro (hnil | ⟨hzero, -⟩)
        · exact hne hnil
        · exact hn hzero
      rw [List.map_cons, List.zipIdx_cons, List.filterMap_cons, ih n.succ_ne_zero]
      simp only [hstrip, if_neg hif, readLine_writeLine, List.map_cons]

/-- What is written is read back. -/
theorem readCacheFile_write (symbol : String) (rows : List (Row F)) :
    readCacheFile fl (some (writeCacheFile fl rows)) symbol =
      (uniqueFrom [] (sortBy Row.ts rows)).map (Row.asRead fl symbol) := by
  have hbreak : ∀ line ∈ CSV_HEADER :: (uniqueFrom [] (sortBy Row.ts rows)).map (writeLine fl),
      ∀ c ∈ line, Text.isLineBreak c = false := by
    intro line hline c hc
    rcases List.mem_cons.1 hline with rfl | hline
    · have hall : CSV_HEADER.all (fun c => !Text.isLineBreak c) = true := by decide
      simpa using List.all_eq_true.1 hall c hc
    · obtain ⟨r, -, rfl⟩ := List.mem_map.1 hline
      exact Text.isLineBreak_of_isSpace (isSpace_writeLine hc)
  have hheader : Text.stripChars CSV_HEADER = CSV_HEADER := by decide
  rw [readCacheFile, writeCacheFile]
  simp only [Text.fileLines_unlines hbreak, List.zipIdx_cons, List.filterMap_cons, hheader]
  rw [if_pos (.inr ⟨trivial, trivial⟩)]
  exact filterMap_writeLine symbol _ (by decide)

/-- Rows at different seconds are all kept. -/
theorem uniqueFrom_of_pairwise {rows : List (Row F)} (h : rows.Pairwise (·.ts ≠ ·.ts))
    {seen : List ℤ} (hseen : ∀ r ∈ rows, r.ts ∉ seen) : uniqueFrom seen rows = rows := by
  induction rows generalizing seen with
  | nil => rfl
  | cons r rows ih =>
      rw [List.pairwise_cons] at h
      rw [uniqueFrom, if_neg (hseen r List.mem_cons_self)]
      refine congrArg (r :: ·) (ih h.2 fun r' hr' => ?_)
      rw [List.mem_cons, not_or]
      exact ⟨fun heq => h.1 r' hr' heq.symm, hseen r' (List.mem_cons_of_mem _ hr')⟩

/-- Rows at different seconds are put in order, and none is left out. -/
theorem uniqueFrom_sortBy {rows : List (Row F)} (h : rows.Pairwise (·.ts ≠ ·.ts)) :
    uniqueFrom [] (sortBy Row.ts rows) = sortBy Row.ts rows :=
  uniqueFrom_of_pairwise ((pairwise_lt_sortBy h).imp fun hlt => hlt.ne) fun _ _ =>
    List.not_mem_nil

/-! ### The map of a symbol -/

/-- The rows of a month are those of a map, in order. -/
structure Kept (m : ℤ → Option (Bar F)) (symbol : String) (month : ℤ) (rows : List (Row F)) :
    Prop where
  sorted : rows.Pairwise (·.ts < ·.ts)
  mem : ∀ r, r ∈ rows ↔ epochMonth r.ts = month ∧ m r.ts = some r.bar ∧ r.symbol = symbol

/-- The files of a symbol hold a map, whose volumes are numbers. -/
structure Holds (fl : Floats F) (months : Months) (m : ℤ → Option (Bar F)) : Prop where
  kept : ∀ month symbol, Kept m symbol month (readCacheFile fl (months.get? month) symbol)
  asRead : ∀ t b, m t = some b → b.asRead fl = b

/-- The map after some rows were answered. -/
def overwrite (fl : Floats F) (m : ℤ → Option (Bar F)) (rows : List (Row F)) (t : ℤ) :
    Option (Bar F) :=
  ((Dict.latest Row.ts rows t).map fun r => r.bar.asRead fl).or (m t)

theorem Holds.empty : Holds fl Dict.empty fun _ => none where
  kept _ _ :=
    { sorted := List.Pairwise.nil
      mem := fun _ => ⟨fun h => absurd h List.not_mem_nil, fun h => by cases h.2.1⟩ }
  asRead _ _ h := by cases h

/-- The row of a month at a second is that of the map. -/
theorem Kept.latest {m : ℤ → Option (Bar F)} {symbol : String} {month : ℤ} {rows : List (Row F)}
    (h : Kept m symbol month rows) {t : ℤ} (ht : epochMonth t = month) :
    (Dict.latest Row.ts rows t).map Row.bar = m t := by
  cases hlatest : Dict.latest Row.ts rows t with
  | some r =>
      obtain ⟨hr, rfl⟩ := Dict.latest_eq_some hlatest
      exact ((h.mem r).1 hr).2.1.symm
  | none =>
      cases hm : m t with
      | none => rfl
      | some b =>
          have hmem : (⟨t, b, symbol⟩ : Row F) ∈ rows := (h.mem _).2 ⟨ht, hm, rfl⟩
          exact absurd rfl (Dict.latest_eq_none_iff.1 hlatest _ hmem)

theorem combined_eq (existing monthRows : List (Row F)) :
    combined existing monthRows = Dict.keyed Row.ts (existing ++ monthRows) :=
  (Dict.keyed_append existing monthRows).symm

/-- The rows of a month, merged with the map. -/
theorem Kept.merge {m : ℤ → Option (Bar F)} (hm : ∀ t b, m t = some b → b.asRead fl = b)
    {symbol : String} {month : ℤ} {existing : List (Row F)} (h : Kept m symbol month existing)
    {monthRows : List (Row F)} (hmonth : ∀ r ∈ monthRows, epochMonth r.ts = month) (symbol' : String) :
    Kept (overwrite fl m monthRows) symbol' month
      (readCacheFile fl (some (writeCacheFile fl (combined existing monthRows).values)) symbol') := by
  have hunique : (combined existing monthRows).values.Pairwise (·.ts ≠ ·.ts) := by
    rw [combined_eq]
    exact Dict.pairwise_keyed _
  rw [readCacheFile_write, uniqueFrom_sortBy hunique, combined_eq]
  -- at the seconds of the month the rows that are written are those of the new map
  have hget : ∀ t, epochMonth t = month →
      (Dict.latest Row.ts (existing ++ monthRows) t).map (fun r => r.bar.asRead fl) =
        overwrite fl m monthRows t := by
    intro t ht
    rw [Dict.latest_append, overwrite, ← h.latest ht]
    cases Dict.latest Row.ts monthRows t with
    | some r => rfl
    | none =>
        cases hlatest : Dict.latest Row.ts existing t with
        | none => rfl
        | some r =>
            have hr := h.latest ht
            rw [hlatest] at hr
            exact congrArg some (hm t r.bar hr.symm)
  have hin : ∀ {t : ℤ} {r : Row F}, Dict.latest Row.ts (existing ++ monthRows) t = some r →
      epochMonth r.ts = month := by
    intro t r hr
    rcases List.mem_append.1 (Dict.latest_eq_some hr).1 with hr | hr
    · exact ((h.mem r).1 hr).1
    · exact hmonth r hr
  refine ⟨List.pairwise_map.2 (pairwise_lt_sortBy (Dict.pairwise_keyed _)), fun r => ?_⟩
  rw [List.mem_map]
  constructor
  · rintro ⟨v, hv, rfl⟩
    have hv := Dict.mem_values_keyed.1 (mem_sortBy.1 hv)
    have hbar := hget v.ts (hin hv)
    rw [hv] at hbar
    have hv := hin hv
    exact ⟨hv, hbar.symm, rfl⟩
  · rintro ⟨hr, hbar, rfl⟩
    rw [← hget _ hr] at hbar
    obtain ⟨v, hv, hbar⟩ := Option.map_eq_some_iff.1 hbar
    have hts := (Dict.latest_eq_some hv).2
    refine ⟨v, mem_sortBy.2 (Dict.mem_values_keyed.2 (hts ▸ hv)), ?_⟩
    rw [Row.asRead, hts, hbar]

/-- An answer without rows of a month leaves its part of the map. -/
theorem Kept.congr {m m' : ℤ → Option (Bar F)} {symbol : String} {month : ℤ} {rows : List (Row F)}
    (h : Kept m symbol month rows) (hm : ∀ t, epochMonth t = month → m' t = m t) :
    Kept m' symbol month rows :=
  ⟨h.sorted, fun r => (h.mem r).trans (and_congr_right fun hr => by rw [hm _ hr])⟩

/-- A second is in the range of the dates. -/
def InDates (t : ℤ) : Prop := monthStart 12 ≤ 1000000 * t ∧ 1000000 * t < monthStart 120000

theorem inDates_of_utcFromTimestamp {t : ℤ} {d : AwareDatetime}
    (h : utcFromTimestamp (1000000 * t) = some d) : InDates t := by
  rw [InDates, ← (utcFromTimestamp_eq_some h).2.1]
  exact ⟨d.minyear, d.maxyear⟩

theorem mapM_datedRow {rows : List (Row F)} (h : ∀ r ∈ rows, InDates r.ts) :
    rows.mapM datedRow = some (rows.map fun r => (epochMonth r.ts, r)) := by
  induction rows with
  | nil => rfl
  | cons r rows ih =>
      have hr : datedRow r = some (epochMonth r.ts, r) := by
        obtain ⟨hmin, hmax⟩ := h r List.mem_cons_self
        rw [datedRow, utcFromTimestamp, dif_pos ⟨hmin, hmax⟩]
        rfl
      rw [List.mapM_cons, hr, ih fun r' hr' => h r' (List.mem_cons_of_mem _ hr')]
      rfl

/-- Merging an answer overwrites the map. -/
theorem Holds.merge {months : Months} {m : ℤ → Option (Bar F)} (h : Holds fl months m)
    (symbol : String) (rows : List (Row F)) :
    Holds fl ((Dict.group Prod.fst Prod.snd (rows.map fun r => (epochMonth r.ts, r))).entries.foldl
      (fun months e => mergeMonth fl symbol months e.1 e.2) months) (overwrite fl m rows) where
  asRead t b hb := by
    rw [overwrite, Option.or_eq_some_iff] at hb
    rcases hb with hb | ⟨-, hb⟩
    · obtain ⟨r, -, rfl⟩ := Option.map_eq_some_iff.1 hb
      exact Bar.asRead_asRead _
    · exact h.asRead t b hb
  kept month symbol' := by
    have hfile := Dict.get?_foldl_set
      (fun file monthRows => writeCacheFile fl (combined (readCacheFile fl file symbol) monthRows).values)
      (Dict.group Prod.fst Prod.snd (rows.map fun r => (epochMonth r.ts, r))) months month
    have hrows : ((rows.map fun r => (epochMonth r.ts, r)).filter fun p => p.1 = month).map Prod.snd =
        rows.filter fun r => epochMonth r.ts = month := by
      rw [List.filter_map, List.map_map]
      exact List.map_id _
    have hnil : (rows.map fun r => (epochMonth r.ts, r)).filter (fun p => p.1 = month) = [] ↔
        rows.filter (fun r => epochMonth r.ts = month) = [] := by
      rw [← hrows, List.map_eq_nil_iff]
    -- the rows of the month decide what the new map is there
    have hover : ∀ t, epochMonth t = month →
        overwrite fl m rows t = overwrite fl m (rows.filter fun r => epochMonth r.ts = month) t := by
      intro t ht
      have hfilter : Dict.latest Row.ts (rows.filter fun r => epochMonth r.ts = month) t =
          if decide (epochMonth t = month) then Dict.latest Row.ts rows t else none :=
        Dict.latest_filter (fun t => decide (epochMonth t = month)) rows t
      rw [overwrite, overwrite, hfilter, if_pos (decide_eq_true ht)]
    rw [Dict.get?_group, hrows] at hfile
    refine Kept.congr ?_ hover
    by_cases hmonth : rows.filter (fun r => epochMonth r.ts = month) = []
    · rw [if_pos (hnil.2 hmonth)] at hfile
      simp only [mergeMonth, hfile, hmonth]
      exact h.kept month symbol'
    · rw [if_neg fun h => hmonth (hnil.1 h)] at hfile
      simp only [mergeMonth, hfile]
      exact (h.kept month symbol).merge h.asRead
        (fun r hr => of_decide_eq_true (List.mem_filter.1 hr).2) symbol'

/-! ### Histories -/

variable {disk}

/-- Every directory holds a map. -/
def HoldsAll (fl : Floats F) (cache : D → Months) (m : D → ℤ → Option (Bar F)) : Prop :=
  ∀ d, Holds fl (cache d) (m d)

/-- The map of a directory after some calls. -/
def mapOf (fl : Floats F) (disk : Disk D) (calls : List (Call F)) (d : D) (t : ℤ) :
    Option (Bar F) :=
  (latest fl disk calls d t).map fun r => r.bar.asRead fl

/-- The dates of the rows that were asked for are in range. -/
theorem inDates_of_fetched {call : Call F} (h : call.InRequest fl) (hcache : call.useCacheOnly = false)
    {rows : List (Row F)} (hrows : call.fetched fl = some rows) : ∀ r ∈ rows, InDates r.ts := by
  intro r hr
  have hreturned : r ∈ call.returned fl := by
    rw [Call.returned, hcache, hrows]
    exact hr
  obtain ⟨hlo, hhi⟩ := h r hreturned
  rw [Call.fetched] at hrows
  obtain ⟨d, hd, hrows⟩ := Option.bind_eq_some_iff.1 hrows
  obtain ⟨e, he, -⟩ := Option.bind_eq_some_iff.1 hrows
  have hd := (inDates_of_utcFromTimestamp hd).1
  have he := (inDates_of_utcFromTimestamp he).2
  constructor <;> omega

/-- Merging succeeds, and overwrites the map of the directory. -/
theorem HoldsAll.persist (disk : Disk D) {cache : D → Months} {m : D → ℤ → Option (Bar F)}
    (h : HoldsAll fl cache m) (symbol : String) {rows : List (Row F)}
    (hrows : ∀ r ∈ rows, InDates r.ts) :
    ∃ cache', persistToCache fl disk cache symbol rows = some cache' ∧
      HoldsAll fl cache' fun d =>
        if disk.dir (normalized symbol) = d then overwrite fl (m d) rows else m d := by
  refine ⟨_, by rw [persistToCache, mapM_datedRow hrows]; rfl, fun d => ?_⟩
  by_cases hd : disk.dir (normalized symbol) = d
  · subst hd
    simp only [Function.update_self, if_pos]
    exact (h _).merge symbol rows
  · simp only [Function.update_of_ne (Ne.symm hd), if_neg hd]
    exact h d

theorem overwrite_nil {m : ℤ → Option (Bar F)} : overwrite fl m [] = m := rfl

/-- A call overwrites the map by what the service returns in it. -/
theorem HoldsAll.fetchCandles {cache : D → Months} {m : D → ℤ → Option (Bar F)}
    (h : HoldsAll fl cache m) {call : Call F} (hcall : call.InRequest fl) :
    HoldsAll fl (fetchCandles fl disk cache call).2 fun d =>
      if disk.dir (normalized call.symbol) = d then overwrite fl (m d) (call.returned fl)
      else m d := by
  have hsame : HoldsAll fl cache fun d =>
      if disk.dir (normalized call.symbol) = d then overwrite fl (m d) [] else m d := by
    simpa only [overwrite_nil, ite_self] using h
  cases hcache : call.useCacheOnly with
  | true =>
      rw [Call.returned, DukascopyCache.fetchCandles]
      simpa only [hcache, if_pos] using hsame
  | false =>
      rw [Call.returned, DukascopyCache.fetchCandles]
      simp only [hcache, Bool.false_eq_true, if_false]
      cases hrows : call.fetched fl with
      | none => exact hsame
      | some rows =>
          cases rows with
          | nil => exact hsame
          | cons r rows =>
              obtain ⟨cache', hpersist, hcache'⟩ :=
                h.persist disk (normalized call.symbol) (inDates_of_fetched hcall hcache hrows)
              rw [normalized_normalized] at hcache'
              simp only [hpersist]
              exact hcache'

theorem mapOf_append (calls : List (Call F)) (call : Call F) (d : D) :
    mapOf fl disk (calls ++ [call]) d =
      if disk.dir (normalized call.symbol) = d then
        overwrite fl (mapOf fl disk calls d) (call.returned fl)
      else mapOf fl disk calls d := by
  funext t
  rw [mapOf, latest, returnedIn, List.filter_append, List.flatMap_append, Dict.latest_append]
  by_cases hd : disk.dir (normalized call.symbol) = d
  · rw [if_pos hd, List.filter_cons_of_pos (by simpa using hd), overwrite]
    simp only [List.filter_nil, List.flatMap_singleton]
    cases Dict.latest Row.ts (call.returned fl) t <;> rfl
  · rw [if_neg hd, List.filter_cons_of_neg (by simpa using hd)]
    rfl

/-- After any history the directories hold the maps of what was answered. -/
theorem holdsAll_run {calls : List (Call F)} (h : ∀ call ∈ calls, call.InRequest fl) :
    HoldsAll fl (run fl disk calls) (mapOf fl disk calls) := by
  induction calls using List.reverseRecOn with
  | nil => exact fun _ => Holds.empty
  | append_singleton calls call ih =>
      have ih := ih fun c hc => h c (List.mem_append_left _ hc)
      have hcall := h call (List.mem_append_right _ (List.mem_singleton_self call))
      have hstep : HoldsAll fl (run fl disk (calls ++ [call])) fun d =>
          if disk.dir (normalized call.symbol) = d then
            overwrite fl (mapOf fl disk calls d) (call.returned fl)
          else mapOf fl disk calls d := by
        rw [run, List.foldl_append]
        exact ih.fetchCandles hcall
      simpa only [← mapOf_append] using hstep

omit [DecidableEq D] in
/-- The rows of a range are those of the map, in order. -/
theorem Holds.readCacheRange {cache : D → Months} {m : ℤ → Option (Bar F)} {symbol : String}
    (h : Holds fl (cache (disk.dir (normalized symbol))) m) (start end_ : ℤ) :
    (readCacheRange fl disk cache symbol start end_).Pairwise (·.ts < ·.ts) ∧
      ∀ r, r ∈ readCacheRange fl disk cache symbol start end_ ↔
        r.symbol = symbol ∧ start.tdiv 1000000 ≤ r.ts ∧ r.ts < end_.tdiv 1000000 ∧
          m r.ts = some r.bar := by
  rw [DukascopyCache.readCacheRange]
  generalize hmonths : cache (disk.dir (normalized symbol)) = months at h
  -- rows of different files are of different months
  have hunique : ((disk.listing months).flatMap fun month =>
      (readCacheFile fl (months.get? month) symbol).filter fun r =>
        start.tdiv 1000000 ≤ r.ts ∧ r.ts < end_.tdiv 1000000).Pairwise (·.ts ≠ ·.ts) := by
    rw [List.pairwise_flatMap]
    constructor
    · intro month _
      exact ((h.kept month symbol).sorted.imp fun hlt => hlt.ne).sublist List.filter_sublist
    · have hnodup : (disk.listing months).Nodup :=
        (disk.perm months).nodup_iff.2 months.nodup_keys
      refine hnodup.imp fun {j k} hjk r hr s hs hrs => hjk ?_
      have hr := ((h.kept j symbol).mem r).1 (List.mem_of_mem_filter hr)
      have hs := ((h.kept k symbol).mem s).1 (List.mem_of_mem_filter hs)
      rw [← hr.1, ← hs.1, hrs]
  rw [uniqueFrom_sortBy hunique]
  refine ⟨pairwise_lt_sortBy hunique, fun r => ?_⟩
  rw [mem_sortBy, List.mem_flatMap]
  constructor
  · rintro ⟨month, -, hr⟩
    rw [List.mem_filter, decide_eq_true_eq] at hr
    obtain ⟨-, hbar, hsymbol⟩ := ((h.kept month symbol).mem r).1 hr.1
    exact ⟨hsymbol, hr.2.1, hr.2.2, hbar⟩
  · rintro ⟨hsymbol, hlo, hhi, hbar⟩
    have hr := ((h.kept (epochMonth r.ts) symbol).mem r).2 ⟨rfl, hbar, hsymbol⟩
    refine ⟨epochMonth r.ts, (disk.perm months).mem_iff.2 ?_, ?_⟩
    · -- there is a row of the month, so it has a file
      by_contra hkey
      rw [Dict.get?_eq_none_iff.2 hkey] at hr
      cases hr
    · exact List.mem_filter.2 ⟨hr, decide_eq_true ⟨hlo, hhi⟩⟩

/-- After any history of calls, an offline read returns the minutes of the range with the values of
the last answers that have them, and an online call whose request fails returns the same, unless that
is nothing. -/
theorem fetchCandles_offline {calls : List (Call F)} (h : ∀ call ∈ calls, call.InRequest fl)
    (call : Call F) :
    ∃ rows,
      (fetchCandles fl disk (run fl disk calls) { call with useCacheOnly := true }).1 = some rows ∧
      rows.Pairwise (·.ts < ·.ts) ∧
      (∀ r, r ∈ rows ↔
        r.symbol = normalized call.symbol ∧
          call.start.tdiv 1000000 ≤ r.ts ∧ r.ts < call.end_.tdiv 1000000 ∧
          (latest fl disk calls (disk.dir (normalized call.symbol)) r.ts).map
            (fun r => r.bar.asRead fl) = some r.bar) ∧
      (call.useCacheOnly = false → call.fetched fl = none →
        (fetchCandles fl disk (run fl disk calls) call).1 =
          if rows.isEmpty then none else some rows) := by
  have hholds : HoldsAll fl (run fl disk calls) (mapOf fl disk calls) := holdsAll_run h
  have hread := (hholds (disk.dir (normalized (normalized call.symbol)))).readCacheRange
    call.start call.end_
  rw [normalized_normalized] at hread
  refine ⟨_, rfl, hread.1, hread.2, fun hcache hfail => ?_⟩
  rw [fetchCandles, hcache, hfail]
  rfl

/-! ### A history -/

/-- Whole numbers, and what is not a number. -/
def wholeFloats : Floats (Option ℤ) where
  repr
    | none => "nan".toList
    | some n => (toString n).toList ++ ['.', '0']
  parse l :=
    if l = "nan".toList then some none
    else
      match l.reverse with
      | '0' :: '.' :: digits => (Text.toInt? (String.ofList digits.reverse)).map some
      | _ => none
  zero := some 0
  isZero x := x = some 0
  isNeg x := x.any (· < 0)
  isNonneg x := x.any (0 ≤ ·)
  parse_repr
    | none => rfl
    | some n => by
        have hnan : (toString n).toList ++ ['.', '0'] ≠ "nan".toList := fun h => by
          have hlast := congrArg List.getLast? h
          rw [List.getLast?_append_of_ne_nil _ (by simp)] at hlast
          exact absurd hlast (by decide)
        have hreverse : ((toString n).toList ++ ['.', '0']).reverse =
            '0' :: '.' :: (toString n).toList.reverse := by
          rw [List.reverse_append]
          rfl
        simp only [if_neg hnan, hreverse, List.reverse_reverse, String.ofList_toList,
          Text.toInt?_toString_int, Option.map_some]
  plain
    | none => fun c hc => by
        have hc : c ∈ ['n', 'a', 'n'] := hc
        simp only [List.mem_cons, List.not_mem_nil, or_false] at hc
        rcases hc with rfl | rfl | rfl <;> decide
    | some n => fun c hc => by
        rcases List.mem_append.1 hc with hc | hc
        · exact plain_toString n hc
        · simp only [List.mem_cons, List.not_mem_nil, or_false] at hc
          rcases hc with rfl | rfl <;> decide
  isNonneg_zero := by decide
  not_isNonneg
    | none => nofun
    | some n => by simp

/-- A disk on which the parts of a path between slashes count, but for empty ones and single points,
and the files are listed in the order in which they were made. -/
def exampleDisk : Disk (List (List Char)) where
  dir symbol := (symbol.toList.splitOn '/').filter fun part => part ≠ [] ∧ part ≠ ['.']
  listing := Dict.keys
  perm _ := List.Perm.refl _

/-- The minutes from 0:01 on of the first day of 1970, of which one is answered, with a volume that is
not a number. -/
def exampleCall : Call (Option ℤ) where
  symbol := "eurusd"
  start := 60000000
  end_ := 180000000
  useCacheOnly := false
  answer :=
    .frame [⟨some 60000000, some (some 3), some (some 4), some (some 2), some (some 3), some none⟩]

/-- An offline read from the start of the day on. -/
def exampleRead (symbol : String) (end_ : ℤ) : Call (Option ℤ) where
  symbol := symbol
  start := 0
  end_ := end_
  useCacheOnly := true
  answer := .failure

theorem exampleCall_inRequest : ∀ call ∈ [exampleCall], call.InRequest wholeFloats := by
  intro call hcall
  obtain rfl := List.mem_singleton.1 hcall
  rw [Call.InRequest]
  decide +kernel

theorem fetchCandles_offline_exampleCall :
    ∃ rows,
      (fetchCandles wholeFloats exampleDisk (run wholeFloats exampleDisk [exampleCall])
        { exampleRead "EURUSD" 120000000 with useCacheOnly := true }).1 = some rows ∧
      rows.Pairwise (·.ts < ·.ts) ∧
      (∀ r, r ∈ rows ↔
        r.symbol = normalized "EURUSD" ∧
          (0 : ℤ).tdiv 1000000 ≤ r.ts ∧ r.ts < (120000000 : ℤ).tdiv 1000000 ∧
          (latest wholeFloats exampleDisk [exampleCall]
            (exampleDisk.dir (normalized "EURUSD")) r.ts).map
              (fun r => r.bar.asRead wholeFloats) = some r.bar) ∧
      ((exampleRead "EURUSD" 120000000).useCacheOnly = false →
        (exampleRead "EURUSD" 120000000).fetched wholeFloats = none →
          (fetchCandles wholeFloats exampleDisk (run wholeFloats exampleDisk [exampleCall])
            (exampleRead "EURUSD" 120000000)).1 = if rows.isEmpty then none else some rows) :=
  fetchCandles_offline exampleCall_inRequest (exampleRead "EURUSD" 120000000)

/-- A minute that starts before the end of the range, but in the same second, is left out; a symbol
for which nothing was answered has the rows of another one; and the volume that was answered is not
the one that is read. -/
theorem offline_read_differs :
    (latest wholeFloats exampleDisk [exampleCall] (exampleDisk.dir "EURUSD") 60).map
        (fun r => (r.ts, r.bar.volume)) = some (60, none) ∧
      60 * 1000000 < (exampleRead "EURUSD" 60500000).end_ ∧
      (fetchCandles wholeFloats exampleDisk (run wholeFloats exampleDisk [exampleCall])
        (exampleRead "EURUSD" 60500000)).1 = some [] ∧
      normalized exampleCall.symbol ≠ normalized "EURUSD/" ∧
      (fetchCandles wholeFloats exampleDisk (run wholeFloats exampleDisk [exampleCall])
        (exampleRead "EURUSD/" 120000000)).1 =
          some [⟨60, ⟨some 3, some 4, some 2, some 3, some 0⟩, "EURUSD/"⟩] := by
  decide +kernel

end DukascopyCache
