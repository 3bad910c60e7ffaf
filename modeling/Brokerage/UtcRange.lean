/-
**Ranges of the candle store in UTC.**

A range between two instants of UTC is read from the files of the months from that of its start to
that of its end, whatever the files hold.  So two ranges that follow one another have the candles of
the whole one, if the files of earlier months have none of the second part, and those of later months
none of the first.

Main definitions:

* `Candle.IsRead` — a candle that was read from a row;
* `CandleStore.readSpan` — the candles of a range in the files of some months;
* `CandleStore.Filed` — the files where the candles of two parts are.

Main results:

* `Candle.mapM_fromCsvRow` — candles that were read are written as the rows they were read from;
* `CandleStore.candles_readRange`, `CandleStore.exists_readRange` — what a range has, and when it can
  be read;
* `CandleStore.readSpan_append` — ranges that follow one another.
-/

import Brokerage.CsvStore
import Brokerage.StableSort

set_option relaxedAutoImplicit false
set_option autoImplicit false

/-! ### Candles that were read -/

namespace Candle

variable {z : Zones}

/-- A candle that was read from a row. -/
def IsRead (c : Candle) : Prop := ∃ row, fromCsvRow row = some c

theorem IsRead.utc {c : Candle} (h : IsRead c) : c.timestamp.zone = .utc := by
  obtain ⟨row, hrow⟩ := h
  exact fromCsvRow_zone hrow

/-- The timestamp of a candle that was read is its second. -/
theorem IsRead.wall_eq {c : Candle} (h : IsRead c) : c.timestamp.wall = 1000000 * epoch z c := by
  obtain ⟨row, hrow⟩ := h
  obtain ⟨t, ht, rfl⟩ := Option.map_eq_some_iff.1 hrow
  rw [utcFromTimestamp] at ht
  split at ht
  · obtain rfl := Option.some.inj ht
    rw [epoch, Candle.instant, Zones.instant_utc rfl, Int.mul_tdiv_cancel_left _ (by decide)]
  · cases ht

theorem IsRead.month_eq {c : Candle} (h : IsRead c) :
    c.timestamp.month = epochMonth (epoch z c) := by
  rw [epochMonth, ← h.wall_eq]
  rfl

/-- A candle that was read is written as the row it was read from. -/
theorem toCsvRow_of_fromCsvRow {row : CsvRow} {c : Candle} (h : Candle.fromCsvRow row = some c) :
    c.toCsvRow z = row := by
  have hwall : c.timestamp.wall = 1000000 * epoch z c := IsRead.wall_eq ⟨row, h⟩
  obtain ⟨t, ht, rfl⟩ := Option.map_eq_some_iff.1 h
  rw [utcFromTimestamp] at ht
  split at ht
  · obtain rfl := Option.some.inj ht
    have hepoch : row.tsEpoch = epoch z _ := Int.eq_of_mul_eq_mul_left (by decide) hwall
    rw [toCsvRow, ← epoch, ← hepoch]
  · cases ht

/-- A candle that was read and is written is read again. -/
theorem IsRead.fromCsvRow {c : Candle} (h : IsRead c) :
    fromCsvRow (c.toCsvRow z) = some c := by
  obtain ⟨row, hrow⟩ := h
  rwa [toCsvRow_of_fromCsvRow hrow]

theorem mapM_fromCsvRow {rows : List CsvRow} {cs : List Candle}
    (h : rows.mapM fromCsvRow = some cs) :
    (∀ c ∈ cs, IsRead c) ∧ cs.map (toCsvRow z) = rows := by
  induction rows generalizing cs with
  | nil =>
      obtain rfl := Option.some.inj h
      exact ⟨fun c hc => absurd hc List.not_mem_nil, rfl⟩
  | cons row rows ih =>
      rw [List.mapM_cons] at h
      obtain ⟨c, hc, h⟩ := Option.bind_eq_some_iff.1 h
      obtain ⟨ds, hds, h⟩ := Option.bind_eq_some_iff.1 h
      obtain rfl := Option.some.inj h
      obtain ⟨hread, hrows⟩ := ih hds
      refine ⟨fun d hd => ?_, ?_⟩
      · rcases List.mem_cons.1 hd with rfl | hd
        · exact ⟨row, hc⟩
        · exact hread d hd
      · rw [List.map_cons, hrows, toCsvRow_of_fromCsvRow hc]

end Candle

namespace CandleStore

open StableSort

variable {z : Zones} {files : Files}

/-- The reading of a candle. -/
def wall (c : Candle) : ℤ := c.timestamp.wall

/-- The candles of a window in the files of some months, from a month on. -/
def readSpan (z : Zones) (files : Files) (lo hi : ℤ) : ℕ → ℤ → List Candle
  | 0, _ => []
  | n + 1, month =>
      within wall lo hi (readCsvFile z files month) ++ readSpan z files lo hi n (month + 1)

/-- How many months there are from a month to the last one before an instant. -/
def monthsUntil (hi month : ℤ) : ℕ := (monthOf (hi - 1) + 1 - month).toNat

theorem le_monthOf_pred {month hi : ℤ} : month ≤ monthOf (hi - 1) ↔ monthStart month < hi := by
  rw [← not_lt, monthOf_lt_iff]
  omega

theorem readCsvFile_sorted (month : ℤ) :
    (readCsvFile z files month).Pairwise (wall · ≤ wall ·) := by
  have hzone : ∀ c ∈ readCsvFile z files month, c.timestamp.zone = .utc :=
    fun c hc => zone_of_mem_readCsvFile hc
  have hsorted : ((readCsvFile z files month).map (Candle.instant z)).Pairwise (· ≤ ·) :=
    sortByTimestamp_pairwise fun c hc => hzone c (mem_sortByTimestamp.2 hc)
  refine (List.pairwise_map.1 hsorted).imp_of_mem fun {a b} ha hb hab => ?_
  rwa [Candle.instant, Candle.instant, Zones.instant_utc (hzone a ha),
    Zones.instant_utc (hzone b hb)] at hab

/-- In UTC the readings decide how candles are sorted. -/
theorem sortByTimestamp_eq_sortBy {cs : List Candle} (h : ∀ c ∈ cs, c.timestamp.zone = .utc) :
    sortByTimestamp z cs = sortBy wall cs := by
  refine insertionSort_congr fun a ha b hb => ?_
  rw [ByTimestamp, Zones.lt, if_pos ((h b hb).trans (h a ha).symm), decide_eq_false_iff_not, not_lt]
  rfl

/-- In UTC the readings decide what is in a range. -/
theorem filter_readCsvFile {start end_ : AwareDatetime} (hs : start.zone = .utc)
    (he : end_.zone = .utc) (month : ℤ) :
    ((readCsvFile z files month).filter fun c =>
        z.le start c.timestamp && z.lt c.timestamp end_) =
      within wall start.wall end_.wall (readCsvFile z files month) := by
  refine List.filter_congr fun c hc => ?_
  have hc := zone_of_mem_readCsvFile hc
  rw [Zones.le, Zones.lt, if_pos (hs.trans hc.symm), if_pos (hc.trans he.symm), Bool.eq_iff_iff,
    Bool.and_eq_true, decide_eq_true_eq, decide_eq_true_eq, decide_eq_true_eq]
  rfl

/-- What the loop over the months reads. -/
theorem readMonths_eq {start end_ : AwareDatetime} (hs : start.zone = .utc)
    (he : end_.zone = .utc) {left : ℕ} {current : AwareDatetime} (hzone : current.zone = .utc)
    (hstart : current.wall = monthStart current.month) {cs : List Candle}
    (h : readMonths z files start end_ left current = some cs) :
    cs = readSpan z files start.wall end_.wall (monthsUntil end_.wall current.month)
      current.month := by
  induction left generalizing current cs with
  | zero => cases h
  | succ left ih =>
      have hlt : z.lt current end_ = true ↔ current.month ≤ monthOf (end_.wall - 1) := by
        rw [Zones.lt, if_pos (hzone.trans he.symm), decide_eq_true_eq, hstart, le_monthOf_pred]
      rw [readMonths] at h
      split at h
      · rename_i hmonth
        have hmonth := hlt.1 hmonth
        split at h
        · cases h
        · rename_i next hnext
          obtain ⟨hnz, -, hnm, hnw⟩ := AwareDatetime.nextMonth_eq_some hnext
          obtain ⟨rest, hrest, rfl⟩ := Option.map_eq_some_iff.1 h
          have hcount : monthsUntil end_.wall current.month =
              monthsUntil end_.wall (current.month + 1) + 1 := by
            rw [monthsUntil, monthsUntil]
            omega
          rw [filter_readCsvFile hs he, ih (hnz.trans hzone) hnw hrest, hnm, hcount]
          rfl
      · rename_i hmonth
        have hcount : monthsUntil end_.wall current.month = 0 := by
          have hmonth := mt hlt.2 hmonth
          rw [monthsUntil]
          omega
        rw [← Option.some.inj h, hcount]
        rfl

/-- The candles of a range that is read. -/
theorem candles_readRange {start end_ : AwareDatetime} (hs : start.zone = .utc)
    (he : end_.zone = .utc) {r : CandleRange} (h : readRange z files start end_ false = some r) :
    r.candles = readSpan z files start.wall end_.wall (monthsUntil end_.wall start.month)
      start.month := by
  obtain ⟨cs, hcs, rfl⟩ := Option.map_eq_some_iff.1 h
  have hzone : start.startOfMonth.zone = .utc := hs
  have hspan := readMonths_eq hs he hzone start.startOfMonth_wall hcs
  rwa [AwareDatetime.startOfMonth_month] at hspan

/-- A range that ends before the last month of all can be read. -/
theorem exists_readRange {start end_ : AwareDatetime} (hs : start.zone = .utc)
    (he : end_.zone = .utc) (hend : end_.wall ≤ monthStart 119999) :
    ∃ r, readRange z files start end_ false = some r := by
  have hmonths : ∀ (left : ℕ) {current : AwareDatetime}, current.zone = .utc →
      current.wall = monthStart current.month → current.month + left = 120000 →
      ∃ cs, readMonths z files start end_ left current = some cs := by
    intro left
    induction left with
    | zero =>
        intro current _ _ hleft
        have := current.month_max
        omega
    | succ left ih =>
        intro current hzone hstart hleft
        rw [readMonths]
        split
        · rename_i hlt
          rw [Zones.lt, if_pos (hzone.trans he.symm), decide_eq_true_eq, hstart] at hlt
          have hmonth : current.month < 119999 :=
            monthStart_strictMono.lt_iff_lt.1 (hlt.trans_le hend)
          have hnext : current.nextMonth = some _ := dif_pos (by omega)
          obtain ⟨hnz, -, hnm, hnw⟩ := AwareDatetime.nextMonth_eq_some hnext
          obtain ⟨rest, hrest⟩ := ih (hnz.trans hzone) hnw (by omega)
          rw [hnext]
          exact ⟨_, congrArg (Option.map _) hrest⟩
        · exact ⟨[], rfl⟩
  have hleft : start.startOfMonth.month + monthsLeft start = 120000 := by
    have := start.month_max
    rw [AwareDatetime.startOfMonth_month, monthsLeft]
    omega
  obtain ⟨cs, hcs⟩ : ∃ cs,
      readMonths z files start end_ (monthsLeft start) start.startOfMonth = some cs :=
    hmonths (monthsLeft start) hs start.startOfMonth_wall hleft
  exact ⟨_, congrArg (Option.map _) hcs⟩

theorem mem_readSpan {lo hi : ℤ} {n : ℕ} {month : ℤ} {c : Candle} :
    c ∈ readSpan z files lo hi n month ↔
      lo ≤ wall c ∧ wall c < hi ∧
        ∃ k, month ≤ k ∧ k < month + n ∧ c ∈ readCsvFile z files k := by
  induction n generalizing month with
  | zero =>
      refine iff_of_false List.not_mem_nil ?_
      rintro ⟨-, -, k, hk, hk', -⟩
      omega
  | succ n ih =>
      rw [readSpan, List.mem_append, mem_within, ih]
      constructor
      · rintro (⟨hc, hlo, hhi⟩ | ⟨hlo, hhi, k, hk, hk', hc⟩)
        · exact ⟨hlo, hhi, month, le_rfl, by omega, hc⟩
        · exact ⟨hlo, hhi, k, by omega, by omega, hc⟩
      · rintro ⟨hlo, hhi, k, hk, hk', hc⟩
        by_cases hmonth : k = month
        · exact .inl ⟨hmonth ▸ hc, hlo, hhi⟩
        · exact .inr ⟨hlo, hhi, k, by omega, by omega, hc⟩

/-! ### Ranges that follow one another -/

/-- The candles of the first part are in files of months up to that of its end, and those of the
second part in files of months from that of its start on, as far as the files are of the whole
range. -/
structure Filed (z : Zones) (files : Files) (a b c : ℤ) : Prop where
  first : ∀ month, month ≤ monthOf (c - 1) → ∀ d ∈ readCsvFile z files month,
    a ≤ wall d → wall d < b → month ≤ monthOf (b - 1)
  second : ∀ month, monthOf a ≤ month → ∀ d ∈ readCsvFile z files month,
    b ≤ wall d → wall d < c → monthOf b ≤ month

theorem readSpan_add (lo hi : ℤ) (n k : ℕ) (month : ℤ) :
    readSpan z files lo hi (n + k) month =
      readSpan z files lo hi n month ++ readSpan z files lo hi k (month + n) := by
  induction n generalizing month with
  | zero => simp [readSpan]
  | succ n ih =>
      have hmonth : month + 1 + n = month + (n + 1 : ℕ) := by
        push_cast
        omega
      rw [Nat.add_right_comm, readSpan, ih, readSpan, List.append_assoc, hmonth]

theorem readSpan_eq_nil {lo hi : ℤ} {n : ℕ} {month : ℤ}
    (h : ∀ k, month ≤ k → k < month + n → ∀ d ∈ readCsvFile z files k, lo ≤ wall d → hi ≤ wall d) :
    readSpan z files lo hi n month = [] := by
  refine List.eq_nil_iff_forall_not_mem.2 fun c hc => ?_
  obtain ⟨hlo, hhi, k, hk, hk', hc⟩ := mem_readSpan.1 hc
  exact not_lt.2 (h k hk hk' c hc hlo) hhi

/-- In the files of some months, the parts follow one another. -/
theorem Filed.readSpan_split {a b c : ℤ} (h : Filed z files a b c) (hab : a ≤ b) (hbc : b ≤ c)
    {n : ℕ} {month : ℤ} (hmonth : monthOf a ≤ month) (hn : month + n ≤ monthOf (c - 1) + 1) :
    readSpan z files a c n month =
      readSpan z files a b n month ++ readSpan z files b c n month := by
  induction n generalizing month with
  | zero => rfl
  | succ n ih =>
      have hrest : readSpan z files a c n (month + 1) =
          readSpan z files a b n (month + 1) ++ readSpan z files b c n (month + 1) :=
        ih (by omega) (by push_cast at hn; omega)
      rw [readSpan, within_split (readCsvFile_sorted month) hab hbc, hrest, readSpan, readSpan]
      by_cases hsecond : within wall b c (readCsvFile z files month) = []
      · rw [hsecond, List.append_nil, List.nil_append, List.append_assoc]
      · -- the file has candles of the second part, so no later one has any of the first
        obtain ⟨d, hd⟩ := List.exists_mem_of_ne_nil _ hsecond
        obtain ⟨hd, hlo, hhi⟩ := mem_within.1 hd
        have hb := h.second month hmonth d hd hlo hhi
        have hpred : monthOf (b - 1) ≤ monthOf b := by
          rw [← not_lt, monthOf_lt_iff, not_lt]
          have := (monthOf_spec (b - 1)).1
          omega
        have hnil : readSpan z files a b n (month + 1) = [] := by
          refine readSpan_eq_nil fun k hk hk' e he hlo' => ?_
          by_contra hhi'
          have hfirst := h.first k (by push_cast at hn; omega) e he hlo' (not_le.1 hhi')
          omega
        rw [hnil, List.nil_append, List.append_nil, List.append_assoc]

/-- Ranges that follow one another have the candles of the whole one. -/
theorem readSpan_append {a b c : ℤ} (h : Filed z files a b c) (hab : a < b) (hbc : b < c) :
    readSpan z files a c (monthsUntil c (monthOf a)) (monthOf a) =
      readSpan z files a b (monthsUntil b (monthOf a)) (monthOf a) ++
        readSpan z files b c (monthsUntil c (monthOf b)) (monthOf b) := by
  have hmono : ∀ {s t : ℤ}, s ≤ t → monthOf s ≤ monthOf t := by
    intro s t hst
    rw [← not_lt, monthOf_lt_iff, not_lt]
    exact (monthOf_spec s).1.trans hst
  have hfirst : monthOf a ≤ monthOf (b - 1) := hmono (by omega)
  have hsecond : monthOf b ≤ monthOf (c - 1) := hmono (by omega)
  have hmid : monthOf (b - 1) ≤ monthOf b := hmono (by omega)
  have hn : monthOf a + monthsUntil c (monthOf a) ≤ monthOf (c - 1) + 1 := by
    rw [monthsUntil]
    omega
  rw [h.readSpan_split hab.le hbc.le le_rfl hn]
  -- the months behind the first part, and those before the second one, add nothing
  have hrest : monthsUntil c (monthOf a) =
      monthsUntil b (monthOf a) + (monthOf (c - 1) - monthOf (b - 1)).toNat := by
    rw [monthsUntil, monthsUntil]
    omega
  have hbefore : monthsUntil c (monthOf a) =
      (monthOf b - monthOf a).toNat + monthsUntil c (monthOf b) := by
    rw [monthsUntil, monthsUntil]
    omega
  have hstart : monthOf a + (monthOf b - monthOf a).toNat = monthOf b := by omega
  congr 1
  · rw [hrest, readSpan_add, readSpan_eq_nil (n := (monthOf (c - 1) - monthOf (b - 1)).toNat),
      List.append_nil]
    intro k hk hk' d hd hlo
    by_contra hhi
    have hle := h.first k (by rw [monthsUntil] at hk'; omega) d hd hlo (not_le.1 hhi)
    rw [monthsUntil] at hk
    omega
  · rw [hbefore, readSpan_add, readSpan_eq_nil (n := (monthOf b - monthOf a).toNat),
      List.nil_append, hstart]
    intro k hk hk' d hd hlo
    by_contra hhi
    have hle := h.second k hk d hd hlo (not_le.1 hhi)
    omega

end CandleStore
