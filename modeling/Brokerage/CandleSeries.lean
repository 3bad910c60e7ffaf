/-
**What the candle store keeps: one series, whatever the zones of the callers.**

The files of a symbol stand for one series: a partial map from instants to values.  Appending sets
an instant that has no value, patching sets instants in any case, and reading a range gives the
part of the series in it, in order.

The files do stand for it, for readers of some zones, as long as every candle is written at a whole
second whose month is the same in these zones, and as long as equality tells the timestamps that
meet in a file apart by their instants.  A candle in the hours in which the zones are in different
months is filed by the clock of the caller: it is filed twice, or looked for in the other month.

Main definitions:

* `Series`, `Series.append`, `Series.patch` — the series and its writes;
* `CandleStore.step` — the writes of the store; `CandleStore.written` — the series of a run;
* `CandleStore.Faithful` — the condition on a write;
* `CandleStore.seriesBy`, `CandleStore.seriesOf` — the series that files stand for, by the clock of a
  zone and by that of UTC.

Main results:

* `CandleStore.step_refines` — a faithful write of the files is the write of the series;
* `CandleStore.mem_readMonths` — what the loop over the months reads;
* `CandleStore.read_back` — after faithful writes a range is read as the series has it;
* `CandleStore.filed_by_caller` — a candle that is filed twice, and one that is not found.
-/

import Brokerage.CsvStore
import Brokerage.Transition

set_option relaxedAutoImplicit false
set_option autoImplicit false

/-! ### The series -/

/-- The values of the stored instants. -/
abbrev Series := ℤ → Option Ohlcv

namespace Series

/-- Appending takes effect only at an instant that has no value. -/
def append (s : Series) (p : ℤ × Ohlcv) : Series := fun t => (s t).or ([p].lookup t)

/-- Of the values that a patch has for an instant the last one counts. -/
def patch (s : Series) (ps : List (ℤ × Ohlcv)) : Series := fun t => (ps.reverse.lookup t).or (s t)

theorem append_of_isSome {s : Series} {p : ℤ × Ohlcv} (h : (s p.1).isSome) : s.append p = s := by
  funext t
  rw [append, Dict.lookup_cons_ite]
  split
  · rename_i ht
    rw [ht, Option.or_of_isSome h]
  · exact Option.or_none

end Series

/-- A write of the store. -/
inductive Write
  | append (candle : Candle)
  | patch (candles : List Candle)
  deriving DecidableEq

/-- The candles of a write. -/
def Write.candles : Write → List Candle
  | .append c => [c]
  | .patch cs => cs

namespace CandleStore

/-- A write, unless it raises. -/
def step (z : Zones) (files : Files) : Write → Option Files
  | .append c => (append z files c).map Prod.fst
  | .patch cs => some (patch z files cs).1

/-- What a write does to the series. -/
def specStep (z : Zones) (s : Series) : Write → Series
  | .append c => s.append (c.entry z)
  | .patch cs => s.patch (cs.map (Candle.entry z))

/-- The series after writes to an empty store. -/
def written (z : Zones) (ws : List Write) : Series := ws.foldl (specStep z) fun _ => none

/-- A faithful write, for readers of some zones: the files can hold the candles, and equality of
timestamps tells them apart, from each other and from those of the files, by their instants. -/
structure Faithful (z : Zones) (zones : Zone → Prop) (files : Files) (w : Write) : Prop where
  storable : ∀ c ∈ w.candles, c.Storable z zones
  eq : ∀ c ∈ w.candles, ∀ e ∈ readCsvFile z files c.timestamp.month ++ w.candles,
    EqFaithful z e.timestamp c.timestamp

variable {z : Zones} {zones : Zone → Prop}

/-! ### Files as a series -/

/-- The series that the files stand for: an instant is looked up in the file of its month. -/
def seriesOf (z : Zones) (files : Files) : Series :=
  fun t => ((readCsvFile z files (monthOf t)).map (Candle.entry z)).lookup t

/-- The same by the clock of a zone, which is in the month of the file. -/
def seriesBy (k : Candle.FileClock z zones) (files : Files) : Series :=
  fun t => ((readCsvFile z files (k.monthAt t)).map (Candle.entry z)).lookup t

/-- Every file keeps candles of its month. -/
def Inv (z : Zones) (zones : Zone → Prop) (files : Files) : Prop :=
  ∀ month, Kept z zones month (readCsvFile z files month)

theorem inv_empty : Inv z zones Dict.empty := fun _ => ⟨fun _ h => (by cases h), List.nodup_nil⟩

variable {k : Candle.FileClock z zones}

theorem seriesBy_empty : seriesBy k Dict.empty = fun _ => none := rfl

theorem Kept.nodup_entries {month : ℤ} {cs : List Candle} (h : Kept z zones month cs) :
    ((cs.map (Candle.entry z)).map Prod.fst).Nodup := by
  rw [Candle.map_fst_entry]
  exact h.nodup

/-- A candle that is read shows the month of its file, if UTC is one of the zones. -/
theorem Inv.month_eq {files : Files} (h : Inv z zones files) (hutc : zones .utc) {month : ℤ}
    {c : Candle} (hc : c ∈ readCsvFile z files month) : c.timestamp.month = month := by
  have hshown := (Candle.FileClock.utc (z := z) hutc).month_eq c.timestamp
    (zone_of_mem_readCsvFile hc)
  exact hshown.symm.trans (((h month).held c hc).monthAt_eq _)

/-- An instant has a value exactly when its candle is in some file. -/
theorem seriesBy_eq_some_iff {files : Files} (h : Inv z zones files) {t : ℤ} {v : Ohlcv} :
    seriesBy k files t = some v ↔
      ∃ month, ∃ c ∈ readCsvFile z files month, c.entry z = (t, v) := by
  rw [seriesBy, Dict.lookup_eq_some_iff_mem (h _).nodup_entries, List.mem_map]
  constructor
  · rintro ⟨c, hc, hentry⟩
    exact ⟨_, c, hc, hentry⟩
  · rintro ⟨month, c, hc, hentry⟩
    have hinst : c.instant z = t := congrArg Prod.fst hentry
    have hmonth : k.monthAt t = month := hinst ▸ ((h month).held c hc).monthAt_eq k
    exact ⟨c, hmonth ▸ hc, hentry⟩

theorem Kept.sortByTimestamp {month : ℤ} {cs : List Candle} (h : Kept z zones month cs) :
    Kept z zones month (sortByTimestamp z cs) :=
  ⟨fun c hc => h.held c (mem_sortByTimestamp.1 hc),
    ((sortByTimestamp_perm cs).map _).nodup_iff.2 h.nodup⟩

/-- Writing a file changes the series in its month. -/
theorem seriesBy_write (files : Files) {month : ℤ} {cs : List Candle} (h : Kept z zones month cs)
    (t : ℤ) :
    seriesBy k (writeCsvFile z files month (sortByTimestamp z cs)) t =
      if k.monthAt t = month then (cs.map (Candle.entry z)).lookup t
      else seriesBy k files t := by
  rw [seriesBy]
  split
  · rename_i hmonth
    have hperm := readCsvFile_write_perm files h.sortByTimestamp.held
    rw [hmonth]
    exact Dict.lookup_of_perm (hperm.trans ((sortByTimestamp_perm cs).map _)) h.nodup_entries t
  · rename_i hmonth
    rw [readCsvFile_write_of_ne files _ hmonth]
    rfl

theorem inv_write {files : Files} (hfiles : Inv z zones files) {month : ℤ} {cs : List Candle}
    (h : Kept z zones month cs) : Inv z zones (writeCsvFile z files month (sortByTimestamp z cs)) := by
  intro k
  by_cases hk : k = month
  · subst hk
    exact h.sortByTimestamp.readCsvFile_write files
  · rw [readCsvFile_write_of_ne files _ hk]
    exact hfiles k

/-! ### Appending -/

theorem append_refines_by {files files' : Files} {c : Candle} {done : Bool}
    (hfiles : Inv z zones files) (hw : Faithful z zones files (.append c))
    (h : append z files c = some (files', done)) :
    Inv z zones files' ∧ seriesBy k files' = (seriesBy k files).append (c.entry z) ∧
      (done = true ↔ seriesBy k files (c.instant z) = none) := by
  have hc : c.HeldIn z zones c.timestamp.month := hw.storable c List.mem_cons_self
  have hmonth : k.monthAt (c.instant z) = c.timestamp.month := hc.monthAt_eq k
  have heq : ∀ e ∈ readCsvFile z files c.timestamp.month,
      (z.eq e.timestamp c.timestamp = true ↔ e.instant z = c.instant z) := fun e he =>
    hw.eq c List.mem_cons_self e (List.mem_append_left _ he)
  rw [append] at h
  split at h
  · cases h
  · dsimp only at h
    split at h
    · -- the timestamp equals that of a stored candle
      rename_i hany
      obtain ⟨rfl, rfl⟩ := Prod.mk.inj (Option.some.inj h)
      obtain ⟨e, he, hec⟩ := List.any_eq_true.1 hany
      have hsome : (seriesBy k files (c.instant z)).isSome := by
        rw [Option.isSome_iff_exists]
        exact ⟨e.ohlcv, (seriesBy_eq_some_iff hfiles).2
          ⟨_, e, he, Prod.ext ((heq e he).1 hec) rfl⟩⟩
      refine ⟨hfiles, ?_, ?_⟩
      · exact (Series.append_of_isSome hsome).symm
      · simp [Option.isSome_iff_ne_none.1 hsome]
    · -- no stored candle has the timestamp
      rename_i hany
      obtain ⟨rfl, rfl⟩ := Prod.mk.inj (Option.some.inj h)
      have hnew : ∀ e ∈ readCsvFile z files c.timestamp.month, e.instant z ≠ c.instant z := by
        intro e he hec
        exact hany (List.any_eq_true.2 ⟨e, he, (heq e he).2 hec⟩)
      have hnone : seriesBy k files (c.instant z) = none := by
        rw [Option.eq_none_iff_forall_not_mem]
        intro v hv
        rw [Option.mem_def, seriesBy, hmonth,
          Dict.lookup_eq_some_iff_mem (hfiles _).nodup_entries] at hv
        obtain ⟨e, he, hentry⟩ := List.mem_map.1 hv
        exact hnew e he (congrArg Prod.fst hentry)
      have hkept : Kept z zones c.timestamp.month
          (readCsvFile z files c.timestamp.month ++ [c]) := by
        refine ⟨fun e he => ?_, ?_⟩
        · rcases List.mem_append.1 he with he | he
          · exact (hfiles _).held e he
          · exact List.mem_singleton.1 he ▸ hc
        · rw [List.map_append]
          refine List.nodup_append.2 ⟨(hfiles _).nodup, List.nodup_singleton _, ?_⟩
          intro t ht u hu htu
          obtain ⟨e, he, rfl⟩ := List.mem_map.1 ht
          exact hnew e he (htu.trans (List.mem_singleton.1 hu))
      refine ⟨inv_write hfiles hkept, ?_, by simp [hnone]⟩
      funext t
      rw [seriesBy_write files hkept, List.map_append, List.lookup_append, Series.append]
      split
      · rename_i hm
        rw [seriesBy, hm]
        rfl
      · rename_i hm
        have hne : t ≠ (c.entry z).1 := fun ht => hm (ht ▸ hmonth)
        rw [Dict.lookup_cons_ite, if_neg hne]
        exact Option.or_none.symm

/-! ### Patching -/

/-- The candles of a file merged with those of a patch. -/
theorem merged_spec {month : ℤ} {existing cs : List Candle} (hex : Kept z zones month existing)
    (hutc : ∀ c ∈ existing, c.timestamp.zone = .utc) (hcs : ∀ c ∈ cs, c.HeldIn z zones month)
    (heq : ∀ c ∈ cs, ∀ e ∈ existing ++ cs, EqFaithful z e.timestamp c.timestamp) :
    Kept z zones month (merged z existing cs) ∧ ∀ t,
      ((merged z existing cs).map (Candle.entry z)).lookup t =
        ((cs.map (Candle.entry z)).reverse.lookup t).or
          ((existing.map (Candle.entry z)).lookup t) := by
  have hnil : DictOf z existing [] :=
    ⟨fun _ h => (by cases h), fun _ h => (by cases h), fun _ h => by cases h⟩
  obtain ⟨hdict, hentries⟩ := entries_setCandles existing hnil (d := Dict.empty) rfl (fun c hc => hc)
    fun c hc e he => eqFaithful_of_utc (hutc e he) (hutc c hc)
  obtain ⟨hdict', hentries'⟩ := entries_setCandles cs
    (hdict.mono fun c hc => List.mem_append_left cs hc) hentries
    (fun c hc => List.mem_append_right existing hc) heq
  have hmap : (merged z existing cs).map (Candle.entry z) =
      ((Dict.empty.setAll (existing.map (Candle.entry z))).setAll
        (cs.map (Candle.entry z))).entries := hdict'.map_entry.trans hentries'
  have hvalues : ∀ c ∈ merged z existing cs, c ∈ existing ++ cs := by
    intro c hc
    obtain ⟨p, hp, rfl⟩ := List.mem_map.1 hc
    exact hdict'.value_mem p hp
  refine ⟨⟨fun c hc => ?_, ?_⟩, fun t => ?_⟩
  · rcases List.mem_append.1 (hvalues c hc) with hc | hc
    · exact hex.held c hc
    · exact hcs c hc
  · rw [← Candle.map_fst_entry, hmap]
    exact Dict.nodup _
  · rw [hmap]
    change Dict.get? _ t = _
    rw [Dict.get?_setAll, Dict.get?_setAll, Dict.get?_empty, Option.or_none,
      Dict.lookup_of_perm (List.reverse_perm _) hex.nodup_entries]

/-- Each candle of a patch is filed under its month, the candles of a month in their order. -/
theorem get?_byMonth (cs : List Candle) (month : ℤ) :
    ((byMonth cs).get? month).getD [] = cs.filter fun c => c.timestamp.month = month :=
  (Dict.getList_group (fun c : Candle => c.timestamp.month) id cs month).trans (List.map_id _)

/-- Only the candles of the month of an instant can be of the instant. -/
theorem lookup_filter_month {cs : List Candle} (hcs : ∀ c ∈ cs, c.Storable z zones) (t : ℤ) :
    (((cs.filter fun c => c.timestamp.month = k.monthAt t).map
        (Candle.entry z)).reverse).lookup t = ((cs.map (Candle.entry z)).reverse).lookup t := by
  induction cs with
  | nil => rfl
  | cons c cs ih =>
      have hrest := ih fun d hd => hcs d (List.mem_cons_of_mem _ hd)
      by_cases hc : c.timestamp.month = k.monthAt t
      · simp [hc, List.lookup_append, hrest]
      · have hne : t ≠ c.instant z := by
          rintro rfl
          exact hc (Candle.HeldIn.monthAt_eq (hcs c List.mem_cons_self) k).symm
        simp [hc, List.lookup_append, hrest, Candle.entry, Dict.lookup_cons_ite, hne]

/-- The candles of some months merged into their files, one month after the other. -/
theorem patchMonths_refines {es : List (ℤ × List Candle)} {files : Files} (hfiles : Inv z zones files)
    (hnodup : (es.map Prod.fst).Nodup) (hcs : ∀ p ∈ es, ∀ c ∈ p.2, c.HeldIn z zones p.1)
    (heq : ∀ p ∈ es, ∀ c ∈ p.2, ∀ e ∈ readCsvFile z files p.1 ++ p.2,
      EqFaithful z e.timestamp c.timestamp) :
    Inv z zones (es.foldl (fun fs p => patchMonth z fs p.1 p.2) files) ∧ ∀ t,
      seriesBy k (es.foldl (fun fs p => patchMonth z fs p.1 p.2) files) t =
        ((((es.lookup (k.monthAt t)).getD []).map (Candle.entry z)).reverse.lookup t).or
          (seriesBy k files t) := by
  induction es generalizing files with
  | nil => exact ⟨hfiles, fun t => rfl⟩
  | cons p es ih =>
      obtain ⟨month, l⟩ := p
      rw [List.map_cons, List.nodup_cons] at hnodup
      obtain ⟨hkept, hlookup⟩ := merged_spec (hfiles month) (fun c hc => zone_of_mem_readCsvFile hc)
        (hcs _ List.mem_cons_self) (heq _ List.mem_cons_self)
      -- the other months' files are still as they were
      have hother : ∀ q ∈ es, readCsvFile z (patchMonth z files month l) q.1 =
          readCsvFile z files q.1 := by
        intro q hq
        refine readCsvFile_write_of_ne files _ ?_
        rintro rfl
        exact hnodup.1 (List.mem_map.2 ⟨q, hq, rfl⟩)
      obtain ⟨hinv, hseries⟩ := ih (inv_write hfiles hkept) hnodup.2
        (fun q hq => hcs q (List.mem_cons_of_mem _ hq))
        fun q hq c hc e he => by
          refine heq q (List.mem_cons_of_mem _ hq) c hc e ?_
          rw [← hother q hq]
          exact he
      refine ⟨hinv, fun t => (hseries t).trans ?_⟩
      rw [Dict.lookup_cons_ite]
      have hpatch := seriesBy_write (k := k) files hkept t
      split
      · rename_i ht
        have hnone : es.lookup (k.monthAt t) = none := by
          rw [ht, List.lookup_eq_none_iff]
          intro q hq
          exact bne_iff_ne.2 fun h => hnodup.1 (List.mem_map.2 ⟨q, hq, h.symm⟩)
        rw [if_pos ht, hlookup] at hpatch
        rw [hnone, hpatch, seriesBy, ht]
        rfl
      · rename_i ht
        rw [if_neg ht] at hpatch
        rw [hpatch]

theorem patch_refines_by {files : Files} {cs : List Candle} (hfiles : Inv z zones files)
    (hw : Faithful z zones files (.patch cs)) :
    Inv z zones (patch z files cs).1 ∧ seriesBy k (patch z files cs).1 =
      (seriesBy k files).patch (cs.map (Candle.entry z)) := by
  have hfilter : ∀ p ∈ (byMonth cs).entries,
      p.2 = cs.filter fun c => c.timestamp.month = p.1 := by
    intro p hp
    rw [← get?_byMonth, Dict.get?_eq_some_iff.2 hp, Option.getD_some]
  have hmem : ∀ p ∈ (byMonth cs).entries, ∀ c ∈ p.2, c ∈ cs ∧ c.timestamp.month = p.1 := by
    intro p hp c hc
    rw [hfilter p hp] at hc
    simpa using hc
  obtain ⟨hinv, hseries⟩ := patchMonths_refines hfiles (byMonth cs).nodup
    (fun p hp c hc => (hmem p hp c hc).2 ▸ hw.storable c (hmem p hp c hc).1)
    fun p hp c hc e he => by
      refine hw.eq c (hmem p hp c hc).1 e ?_
      rw [(hmem p hp c hc).2]
      rcases List.mem_append.1 he with he | he
      · exact List.mem_append_left _ he
      · exact List.mem_append_right _ (hmem p hp e he).1
  refine ⟨hinv, funext fun t => (hseries t).trans ?_⟩
  have hget : ((byMonth cs).entries.lookup (k.monthAt t)).getD [] =
      cs.filter fun c => c.timestamp.month = k.monthAt t := get?_byMonth cs (k.monthAt t)
  rw [hget, lookup_filter_month (show ∀ c ∈ cs, c.Storable z zones from hw.storable)]
  rfl

/-! ### Runs -/

/-- A faithful write of the files is the write of the series that they stand for. -/
theorem step_refines {files files' : Files} {w : Write} (hfiles : Inv z zones files)
    (hw : Faithful z zones files w) (h : step z files w = some files') :
    Inv z zones files' ∧ seriesBy k files' = specStep z (seriesBy k files) w := by
  cases w with
  | append c =>
      obtain ⟨⟨files₁, done⟩, happend, rfl⟩ := Option.map_eq_some_iff.1 h
      obtain ⟨hinv, hseries, -⟩ := append_refines_by hfiles hw happend
      exact ⟨hinv, hseries⟩
  | patch cs =>
      obtain rfl := Option.some.inj h
      exact patch_refines_by hfiles hw

/-- After faithful writes the files stand for the series of the run. -/
theorem exec_refines {ws : List Write} {files : Files}
    (hrun : Transition.exec (step z) Dict.empty ws = some files)
    (hmeets : Transition.Meets (step z) (Faithful z zones) Dict.empty ws) :
    Inv z zones files ∧ seriesBy k files = written z ws := by
  refine Transition.exec_simulation_of_meets (specStep z)
    (R := fun fs s => Inv z zones fs ∧ seriesBy k fs = s) ?_ ⟨inv_empty, seriesBy_empty⟩ hmeets
      hrun
  rintro fs s w fs' ⟨hinv, rfl⟩ hw hstep
  exact step_refines hinv hw hstep

/-! ### Readers of UTC -/

theorem seriesOf_eq_some_iff {files : Files} (h : Inv z zones files) (hutc : zones .utc) {t : ℤ}
    {v : Ohlcv} : seriesOf z files t = some v ↔
      ∃ month, ∃ c ∈ readCsvFile z files month, c.entry z = (t, v) :=
  seriesBy_eq_some_iff (k := .utc hutc) h

theorem append_refines {files files' : Files} {c : Candle} {done : Bool}
    (hfiles : Inv z zones files) (hutc : zones .utc) (hw : Faithful z zones files (.append c))
    (h : append z files c = some (files', done)) :
    Inv z zones files' ∧ seriesOf z files' = (seriesOf z files).append (c.entry z) ∧
      (done = true ↔ seriesOf z files (c.instant z) = none) :=
  append_refines_by (k := .utc hutc) hfiles hw h

theorem patch_refines {files : Files} {cs : List Candle} (hfiles : Inv z zones files)
    (hutc : zones .utc) (hw : Faithful z zones files (.patch cs)) :
    Inv z zones (patch z files cs).1 ∧
      seriesOf z (patch z files cs).1 = (seriesOf z files).patch (cs.map (Candle.entry z)) :=
  patch_refines_by (k := .utc hutc) hfiles hw

/-- A closed candle of UTC, at a full second, is always appended, to the series as well. -/
theorem append_utc {files : Files} {c : Candle} (hfiles : Inv z (· = .utc) files)
    (hzone : c.timestamp.zone = .utc) (hwhole : 1000000 ∣ c.timestamp.wall)
    (hclosed : c.isClosed = true) :
    ∃ files' done, append z files c = some (files', done) ∧ Inv z (· = .utc) files' ∧
      seriesOf z files' = (seriesOf z files).append (c.entry z) := by
  have hfaithful : Faithful z (· = .utc) files (.append c) := by
    refine ⟨fun d hd => ?_, fun d hd e he => ?_⟩
    · obtain rfl := List.mem_singleton.1 hd
      exact Candle.storable_utc hzone hwhole
    · obtain rfl := List.mem_singleton.1 hd
      refine eqFaithful_of_utc ?_ hzone
      rcases List.mem_append.1 he with he | he
      · exact zone_of_mem_readCsvFile he
      · rw [List.mem_singleton.1 he]
        exact hzone
  have hsome : ∃ result, append z files c = some result := by
    rw [append, if_neg (by simp [hclosed])]
    dsimp only
    split
    · exact ⟨_, rfl⟩
    · exact ⟨_, rfl⟩
  obtain ⟨⟨files', done⟩, h⟩ := hsome
  obtain ⟨hinv, hseries, -⟩ := append_refines hfiles rfl hfaithful h
  exact ⟨files', done, h, hinv, hseries⟩

/-! ### Reading a range -/

/-- The first of December 9999 in the zone of a datetime. -/
def lastMonth (d : AwareDatetime) : AwareDatetime := d.atMonth 119999 (by decide) (by decide)

/-- Whether the loop goes on is decided by the month of the start and the instant of the end:
once it stops, no later month has a candle before the end. -/
theorem lt_of_mem (hz : z.MonthsKeep) {current end_ b : AwareDatetime}
    (hstart : current.wall = monthStart current.month) (hzone : b.zone = current.zone)
    (hmonth : current.month ≤ b.month) (hb : z.instant b < z.instant end_) :
    z.lt current end_ = true := by
  have hcb : z.instant current ≤ z.instant b := by
    by_contra hlt
    exact absurd ((Zones.month_lt_iff hz hzone hstart).2 (not_le.1 hlt)) (not_lt.2 hmonth)
  rw [Zones.lt]
  split
  · -- one zone: the readings decide, and both follow the months
    rename_i hend
    have hle : current.month ≤ end_.month := by
      by_contra hlt
      have hec := (Zones.month_lt_iff hz hend.symm hstart).1 (not_le.1 hlt)
      omega
    rw [decide_eq_true_eq]
    have hwall : current.wall ≤ end_.wall := by
      rw [hstart]
      exact not_lt.1 fun h => not_lt.2 hle (monthOf_lt_iff.2 h)
    refine lt_of_le_of_ne hwall fun hwalls => ?_
    -- the end would be the start of a month, before a datetime of that month or a later one
    have hend_start : end_.wall = monthStart end_.month := by
      have hm : end_.month = current.month := by
        rw [AwareDatetime.month, AwareDatetime.month, hwalls]
      rw [← hwalls, hm, hstart]
    have hm : end_.month = current.month := by
      rw [AwareDatetime.month, AwareDatetime.month, hwalls]
    have hbe := (Zones.month_lt_iff hz (hzone.trans hend) hend_start).2 hb
    omega
  · rw [decide_eq_true_eq]
    omega

/-- While the end is not reached there is a next month. -/
theorem exists_nextMonth {start end_ current : AwareDatetime}
    (hend : z.lt (lastMonth start) end_ = false) (hstart : current.wall = monthStart current.month)
    (hzone : current.zone = start.zone) (hfold : current.fold = start.fold)
    (hlt : z.lt current end_ = true) : ∃ next, current.nextMonth = some next := by
  have hnext : current.month + 1 < 120000 := by
    by_contra hmax
    have hlast : current = lastMonth start := by
      have hmonth : current.month = 119999 := by
        have := current.month_max
        omega
      rw [hmonth] at hstart
      cases current
      simp_all [lastMonth, AwareDatetime.atMonth]
    rw [hlast, hend] at hlt
    cases hlt
  exact ⟨_, dif_pos hnext⟩

/-- The file of an earlier month comes before. -/
theorem instant_lt_of_month_lt (hz : z.MonthsKeep) {files : Files} (hfiles : Inv z zones files)
    {zone : Zone} (hreader : zones zone) {m n : ℤ} (hmn : m < n) {a b : Candle}
    (ha : a ∈ readCsvFile z files m) (hb : b ∈ readCsvFile z files n) :
    a.instant z < b.instant z := by
  obtain ⟨a', haz, hai, ham⟩ := ((hfiles m).held a ha).month zone hreader
  obtain ⟨b', hbz, hbi, hbm⟩ := ((hfiles n).held b hb).month zone hreader
  by_contra hle
  have hmonths := Zones.month_mono hz (hbz.trans haz.symm) (by rw [hbi, hai]; exact not_lt.1 hle)
  omega

/-- The candles of a file that are in the range. -/
theorem mem_filter_readCsvFile {files : Files} {month : ℤ} {start end_ : AwareDatetime}
    {c : Candle} :
    c ∈ (readCsvFile z files month).filter
        (fun c => z.le start c.timestamp && z.lt c.timestamp end_) ↔
      c ∈ readCsvFile z files month ∧ z.instant start ≤ c.instant z ∧
        c.instant z < z.instant end_ := by
  rw [List.mem_filter, Bool.and_eq_true]
  refine and_congr_right fun hc => ?_
  have hutc := zone_of_mem_readCsvFile hc
  rw [Zones.le_iff_of_utc (Or.inr hutc), Zones.lt_iff_of_utc (Or.inl hutc)]
  rfl

/-- What the loop over the months reads from the start of a month on: in strict order, the candles
of this month's file and of the later ones that are in the range. -/
theorem mem_readMonths (hz : z.MonthsKeep) {files : Files} (hfiles : Inv z zones files)
    {start end_ : AwareDatetime} (hreader : zones start.zone)
    (hend : z.lt (lastMonth start) end_ = false) (left : ℕ)
    {current : AwareDatetime} (hstart : current.wall = monthStart current.month)
    (hzone : current.zone = start.zone) (hfold : current.fold = start.fold)
    (hleft : current.month + left = 120000) :
    ∃ cs, readMonths z files start end_ left current = some cs ∧
      (cs.map (Candle.instant z)).Pairwise (· < ·) ∧
      ∀ c, c ∈ cs ↔ (∃ month, current.month ≤ month ∧ c ∈ readCsvFile z files month) ∧
        z.instant start ≤ c.instant z ∧ c.instant z < z.instant end_ := by
  induction left generalizing current with
  | zero =>
      have := current.month_max
      omega
  | succ left ih =>
      rw [readMonths]
      split
      · rename_i hlt
        obtain ⟨next, hnext⟩ := exists_nextMonth hend hstart hzone hfold hlt
        obtain ⟨hnextZone, hnextFold, hnextMonth, hnextWall⟩ :=
          AwareDatetime.nextMonth_eq_some hnext
        obtain ⟨cs, hcs, hsorted, hmem⟩ := ih hnextWall (hnextZone.trans hzone)
          (hnextFold.trans hfold) (by
            rw [hnextMonth]
            push_cast at hleft
            omega)
        rw [hnextMonth] at hmem
        rw [hnext]
        dsimp only
        rw [hcs]
        refine ⟨_, rfl, ?_, fun c => ?_⟩
        · rw [List.map_append]
          refine List.pairwise_append.2 ⟨?_, hsorted, ?_⟩
          · exact (hfiles current.month).pairwise_lt.sublist (List.filter_sublist.map _)
          · intro t ht u hu
            obtain ⟨a, ha, rfl⟩ := List.mem_map.1 ht
            obtain ⟨b, hb, rfl⟩ := List.mem_map.1 hu
            obtain ⟨⟨month, hmonth, hb⟩, -⟩ := (hmem b).1 hb
            exact instant_lt_of_month_lt hz hfiles hreader (by omega) (List.mem_of_mem_filter ha) hb
        · rw [List.mem_append, hmem, mem_filter_readCsvFile]
          constructor
          · rintro (⟨hc, hrange⟩ | ⟨⟨month, hmonth, hc⟩, hrange⟩)
            · exact ⟨⟨_, le_rfl, hc⟩, hrange⟩
            · exact ⟨⟨month, by omega, hc⟩, hrange⟩
          · rintro ⟨⟨month, hmonth, hc⟩, hrange⟩
            rcases eq_or_lt_of_le hmonth with rfl | hmonth
            · exact Or.inl ⟨hc, hrange⟩
            · exact Or.inr ⟨⟨month, by omega, hc⟩, hrange⟩
      · rename_i hlt
        refine ⟨[], rfl, List.Pairwise.nil, fun c => iff_of_false List.not_mem_nil ?_⟩
        rintro ⟨⟨month, hmonth, hc⟩, -, hce⟩
        -- the end is not after the month, and the candles are of it or later
        obtain ⟨b, hbz, hbi, hbm⟩ := ((hfiles _).held c hc).month current.zone (hzone ▸ hreader)
        exact hlt (lt_of_mem hz hstart hbz (hbm ▸ hmonth) (hbi ▸ hce))

/-- In one zone the loop goes on while the month starts before the end, by the clock. -/
theorem lt_end_iff {current end_ : AwareDatetime} (hzone : current.zone = end_.zone)
    (hstart : current.wall = monthStart current.month) :
    z.lt current end_ = true ↔ monthStart current.month < end_.wall := by
  rw [Zones.lt, if_pos hzone, decide_eq_true_eq, hstart]

/-- A range that reaches past the first of the last month raises. -/
theorem readMonths_eq_none {files : Files} {start end_ : AwareDatetime}
    (hzone : start.zone = end_.zone) (hend : monthStart 119999 < end_.wall) (left : ℕ)
    {current : AwareDatetime} (hcurrent : current.zone = start.zone)
    (hstart : current.wall = monthStart current.month) :
    readMonths z files start end_ left current = none := by
  induction left generalizing current with
  | zero => rfl
  | succ left ih =>
      have hmonth : monthStart current.month ≤ monthStart 119999 := by
        have := current.month_max
        exact monthStart_strictMono.monotone (by omega)
      rw [readMonths, if_pos ((lt_end_iff (hcurrent.trans hzone) hstart).2 (hmonth.trans_lt hend))]
      dsimp only
      split
      · rfl
      · rename_i next hnext
        obtain ⟨hzone', -, -, hwall⟩ := AwareDatetime.nextMonth_eq_some hnext
        rw [ih (hzone'.trans hcurrent) hwall]
        rfl

/-- The files follow one another in time, each in strict order. -/
structure Chronological (z : Zones) (files : Files) : Prop where
  sorted : ∀ month, ((readCsvFile z files month).map (Candle.instant z)).Pairwise (· < ·)
  months : ∀ m n, m < n → ∀ a ∈ readCsvFile z files m, ∀ b ∈ readCsvFile z files n,
    a.instant z < b.instant z

/-- What the loop reads in one zone: in strict order, the candles in the range of the files of the
months that start before the end, by the clock. -/
theorem mem_readMonths_zone {files : Files} (hfiles : Chronological z files)
    {start end_ : AwareDatetime} (hzone : start.zone = end_.zone)
    (hend : end_.wall ≤ monthStart 119999) (left : ℕ) {current : AwareDatetime}
    (hcurrent : current.zone = start.zone) (hstart : current.wall = monthStart current.month)
    (hleft : current.month + left = 120000) :
    ∃ cs, readMonths z files start end_ left current = some cs ∧
      (cs.map (Candle.instant z)).Pairwise (· < ·) ∧
      ∀ c, c ∈ cs ↔ (∃ month, current.month ≤ month ∧ monthStart month < end_.wall ∧
        c ∈ readCsvFile z files month) ∧
          z.instant start ≤ c.instant z ∧ c.instant z < z.instant end_ := by
  induction left generalizing current with
  | zero =>
      have := current.month_max
      omega
  | succ left ih =>
      rw [readMonths]
      have hiff := lt_end_iff (z := z) (hcurrent.trans hzone) hstart
      split
      · rename_i hlt
        have hnext : current.month + 1 < 120000 := by
          by_contra hmax
          have hmonth : current.month = 119999 := by
            have := current.month_max
            omega
          rw [hiff, hmonth] at hlt
          exact absurd hlt (not_lt.2 hend)
        obtain ⟨next, hnext⟩ : ∃ next, current.nextMonth = some next := ⟨_, dif_pos hnext⟩
        obtain ⟨hnextZone, -, hnextMonth, hnextWall⟩ := AwareDatetime.nextMonth_eq_some hnext
        obtain ⟨cs, hcs, hsorted, hmem⟩ := ih (hnextZone.trans hcurrent) hnextWall (by
          rw [hnextMonth]
          push_cast at hleft
          omega)
        rw [hnextMonth] at hmem
        rw [hnext]
        dsimp only
        rw [hcs]
        refine ⟨_, rfl, ?_, fun c => ?_⟩
        · rw [List.map_append]
          refine List.pairwise_append.2 ⟨?_, hsorted, ?_⟩
          · exact (hfiles.sorted current.month).sublist (List.filter_sublist.map _)
          · intro t ht u hu
            obtain ⟨a, ha, rfl⟩ := List.mem_map.1 ht
            obtain ⟨b, hb, rfl⟩ := List.mem_map.1 hu
            obtain ⟨⟨month, hmonth, -, hb⟩, -⟩ := (hmem b).1 hb
            exact hfiles.months _ _ (by omega) a (List.mem_of_mem_filter ha) b hb
        · rw [List.mem_append, hmem, mem_filter_readCsvFile]
          constructor
          · rintro (⟨hc, hrange⟩ | ⟨⟨month, hmonth, hvisited, hc⟩, hrange⟩)
            · exact ⟨⟨_, le_rfl, hiff.1 hlt, hc⟩, hrange⟩
            · exact ⟨⟨month, by omega, hvisited, hc⟩, hrange⟩
          · rintro ⟨⟨month, hmonth, hvisited, hc⟩, hrange⟩
            rcases eq_or_lt_of_le hmonth with rfl | hmonth
            · exact Or.inl ⟨hc, hrange⟩
            · exact Or.inr ⟨⟨month, by omega, hvisited, hc⟩, hrange⟩
      · rename_i hnot
        refine ⟨[], rfl, List.Pairwise.nil, fun c => iff_of_false List.not_mem_nil ?_⟩
        rintro ⟨⟨month, hmonth, hvisited, -⟩, -⟩
        exact hnot (hiff.2 ((monthStart_strictMono.monotone hmonth).trans_lt hvisited))

/-- A range is read as the series of the files has it. -/
theorem readRange_spec_by (hz : z.MonthsKeep) {files : Files} (hfiles : Inv z zones files)
    {start end_ : AwareDatetime} (hreader : zones start.zone)
    (hend : z.lt (lastMonth start) end_ = false) (validateGaps : Bool) :
    ∃ range, readRange z files start end_ validateGaps = some range ∧
      (range.candles.map (Candle.instant z)).Pairwise (· < ·) ∧
      ∀ t v, (t, v) ∈ range.candles.map (Candle.entry z) ↔
        z.instant start ≤ t ∧ t < z.instant end_ ∧ seriesBy k files t = some v := by
  have hleft : start.startOfMonth.month + monthsLeft start = 120000 := by
    have := start.month_max
    rw [AwareDatetime.startOfMonth_month, monthsLeft]
    omega
  obtain ⟨cs, hcs, hsorted, hmem⟩ := mem_readMonths hz hfiles hreader hend (monthsLeft start)
    start.startOfMonth_wall rfl rfl hleft
  rw [AwareDatetime.startOfMonth_month] at hmem
  refine ⟨_, by rw [readRange, hcs]; rfl, ?_⟩
  have hcandles : (if validateGaps then
      CandleRange.validateCompleteness z ⟨start, end_, cs, true, 0⟩
      else ⟨start, end_, cs, true, 0⟩ : CandleRange).candles = cs := by
    split <;> rfl
  rw [hcandles]
  refine ⟨hsorted, fun t v => ?_⟩
  rw [seriesBy_eq_some_iff hfiles, List.mem_map]
  constructor
  · rintro ⟨c, hc, hentry⟩
    obtain ⟨⟨month, -, hfile⟩, hge, hlt⟩ := (hmem c).1 hc
    have hinst : c.instant z = t := congrArg Prod.fst hentry
    exact ⟨hinst ▸ hge, hinst ▸ hlt, month, c, hfile, hentry⟩
  · rintro ⟨hge, hlt, month, c, hfile, hentry⟩
    have hinst : c.instant z = t := congrArg Prod.fst hentry
    obtain ⟨b, hbz, hbi, hbm⟩ := ((hfiles _).held c hfile).month start.zone hreader
    have hmonth : start.month ≤ month := by
      rw [← hbm]
      exact Zones.month_mono hz hbz.symm (by rw [hbi, hinst]; exact hge)
    exact ⟨c, (hmem c).2 ⟨⟨month, hmonth, hfile⟩, hinst ▸ hge, hinst ▸ hlt⟩, hentry⟩

theorem readRange_spec (hz : z.MonthsKeep) {files : Files} (hfiles : Inv z zones files)
    (hutc : zones .utc) {start end_ : AwareDatetime} (hreader : zones start.zone)
    (hend : z.lt (lastMonth start) end_ = false) (validateGaps : Bool) :
    ∃ range, readRange z files start end_ validateGaps = some range ∧
      (range.candles.map (Candle.instant z)).Pairwise (· < ·) ∧
      ∀ t v, (t, v) ∈ range.candles.map (Candle.entry z) ↔
        z.instant start ≤ t ∧ t < z.instant end_ ∧ seriesOf z files t = some v :=
  readRange_spec_by (k := .utc hutc) hz hfiles hreader hend validateGaps

/-- What is read carries the zone of the files. -/
theorem zone_of_mem_readMonths {files : Files} {start end_ : AwareDatetime} {left : ℕ}
    {current : AwareDatetime} {cs : List Candle}
    (h : readMonths z files start end_ left current = some cs) {c : Candle} (hc : c ∈ cs) :
    c.timestamp.zone = .utc := by
  induction left generalizing current cs with
  | zero => cases h
  | succ left ih =>
      rw [readMonths] at h
      split at h
      · dsimp only at h
        split at h
        · cases h
        · obtain ⟨rest, hrest, rfl⟩ := Option.map_eq_some_iff.1 h
          rcases List.mem_append.1 hc with hc | hc
          · exact zone_of_mem_readCsvFile (List.mem_of_mem_filter hc)
          · exact ih hrest hc
      · obtain rfl := Option.some.inj h
        cases hc

/-- After writes that are faithful for readers of some zones, a range given from one of these zones
on is read in strict order with exactly the candles of the series of the run that are in it. -/
theorem read_back (hz : z.MonthsKeep) {ws : List Write} {files : Files}
    (hrun : Transition.exec (step z) Dict.empty ws = some files)
    (hmeets : Transition.Meets (step z) (Faithful z zones) Dict.empty ws) {start end_ : AwareDatetime}
    (hreader : zones start.zone) (hend : z.lt (lastMonth start) end_ = false)
    (validateGaps : Bool) :
    ∃ range, readRange z files start end_ validateGaps = some range ∧
      (range.candles.map (Candle.instant z)).Pairwise (· < ·) ∧
      ∀ t v, (t, v) ∈ range.candles.map (Candle.entry z) ↔
        z.instant start ≤ t ∧ t < z.instant end_ ∧ written z ws t = some v := by
  obtain ⟨k, -⟩ := Candle.FileClock.exists_of_zone hz hreader
  obtain ⟨hinv, hseries⟩ := exec_refines (k := k) hrun hmeets
  rw [← hseries]
  exact readRange_spec_by hz hinv hreader hend validateGaps

/-! ### New York in winter -/

/-- New York in winter is five hours behind. -/
def winter : Zones := ⟨fun _ _ => -18000⟩

/-- Five hours are a condition on the readings alone. -/
theorem winter_monthsKeep : winter.MonthsKeep := by
  intro a b ha hb hwall
  simp only [Zones.instant, Zones.utcoffset, ha, hb, winter]
  rw [AwareDatetime.month, monthOf_lt_iff, ← hwall]
  omega

theorem monthIn_winter {c : Candle}
    (hutc : monthOf (c.instant winter) = c.timestamp.month)
    (hny : monthOf (c.instant winter - 18000000000) = c.timestamp.month) (zone : Zone) :
    c.MonthIn winter zone := by
  have hbounds : ∀ wall : ℤ, monthOf wall = c.timestamp.month →
      monthStart 12 ≤ wall ∧ wall < monthStart 120000 := by
    intro wall hwall
    refine ⟨not_lt.1 fun h => ?_, monthOf_lt_iff.1 (hwall ▸ c.timestamp.month_max)⟩
    have := monthOf_lt_iff.2 h
    have := c.timestamp.month_min
    omega
  cases zone with
  | utc =>
      obtain ⟨hmin, hmax⟩ := hbounds _ hutc
      exact ⟨⟨.utc, _, false, hmin, hmax⟩, rfl, Zones.instant_utc rfl, hutc⟩
  | newYork =>
      obtain ⟨hmin, hmax⟩ := hbounds _ hny
      refine ⟨⟨.newYork, _, false, hmin, hmax⟩, rfl, ?_, hny⟩
      simp only [Zones.instant, Zones.utcoffset, winter]
      ring

/-- A candle of one price. -/
def flat (timestamp : AwareDatetime) (price : ℚ) : Candle where
  timestamp
  ohlcv := .flat price
  isClosed := true

/-- Noon of the fifteenth of January 2024 in UTC. -/
def utcNoon : AwareDatetime :=
  ⟨.utc, 1705320000000000, false, by decide +kernel, by decide +kernel⟩

/-- A minute later, in New York. -/
def newYorkAfterNoon : AwareDatetime :=
  ⟨.newYork, 1705302060000000, false, by decide +kernel, by decide +kernel⟩

/-- The first of February 2024, half past midnight in UTC. -/
def utcNewMonth : AwareDatetime :=
  ⟨.utc, 1706747400000000, false, by decide +kernel, by decide +kernel⟩

/-- The same instant in New York, where it is still January. -/
def newYorkNewMonth : AwareDatetime :=
  ⟨.newYork, 1706729400000000, false, by decide +kernel, by decide +kernel⟩

theorem faithful_two_zones : Faithful winter (fun _ => True) Dict.empty
    (.patch [flat utcNoon 1, flat newYorkAfterNoon 2]) := by
  refine ⟨fun c hc => ?_, by decide⟩
  have hmonth : ∀ zone, c.MonthIn winter zone := by
    rcases List.mem_pair.1 hc with rfl | rfl
    · exact monthIn_winter (by decide +kernel) (by decide +kernel)
    · exact monthIn_winter (by decide +kernel) (by decide +kernel)
  obtain ⟨b, hb, hinst, -⟩ := hmonth .utc
  refine ⟨?_, ⟨b, hb, hinst⟩, fun zone _ => hmonth zone⟩
  rcases List.mem_pair.1 hc with rfl | rfl
  · decide
  · decide

/-- Readers of New York alone may write in its last hours of a month. -/
example : Faithful winter (· = .newYork) Dict.empty (.append (flat newYorkNewMonth 1)) := by
  refine ⟨fun c hc => ?_, by decide⟩
  obtain rfl := List.mem_singleton.1 hc
  exact ⟨by decide, ⟨utcNewMonth, rfl, by decide⟩, fun zone hzone => hzone ▸
    ⟨newYorkNewMonth, rfl, rfl, rfl⟩⟩

/-- A patch of two candles of the two zones, read back from one zone to the other. -/
theorem read_back_two_zones :
    ∃ range, readRange winter
        (patch winter Dict.empty [flat utcNoon 1, flat newYorkAfterNoon 2]).1 newYorkAfterNoon
        utcNewMonth true = some range ∧
      (range.candles.map (Candle.instant winter)).Pairwise (· < ·) ∧
      ∀ t v, (t, v) ∈ range.candles.map (Candle.entry winter) ↔
        winter.instant newYorkAfterNoon ≤ t ∧ t < winter.instant utcNewMonth ∧
          written winter [.patch [flat utcNoon 1, flat newYorkAfterNoon 2]] t = some v := by
  have hrun : Transition.exec (step winter) Dict.empty
      [.patch [flat utcNoon 1, flat newYorkAfterNoon 2]] =
        some (patch winter Dict.empty [flat utcNoon 1, flat newYorkAfterNoon 2]).1 := rfl
  refine read_back winter_monthsKeep hrun ⟨faithful_two_zones, trivial⟩ trivial ?_ true
  decide +kernel

/-- Half past midnight in UTC on the first of a month is a day of the month before in New York.
A candle appended under both readings is kept twice, and both are returned; appended under New
York's only, it is not found from UTC. -/
theorem filed_by_caller :
    winter.MonthsKeep ∧
      ((Transition.exec (step winter) Dict.empty
          [.append (flat utcNewMonth 1), .append (flat newYorkNewMonth 2)]).bind fun files =>
        (readRange winter files newYorkAfterNoon
          ⟨.utc, 1706767200000000, false, by decide +kernel, by decide +kernel⟩ true).map fun range =>
            range.candles.map (Candle.entry winter)) =
        some [(1706747400000000, (flat newYorkNewMonth 2).ohlcv),
          (1706747400000000, (flat utcNewMonth 1).ohlcv)] ∧
      ((Transition.exec (step winter) Dict.empty [.append (flat newYorkNewMonth 2)]).bind
        fun files => (readRange winter files utcNewMonth
          ⟨.utc, 1706767200000000, false, by decide +kernel, by decide +kernel⟩ true).map fun range =>
            range.candles) = some [] ∧
      written winter [.append (flat newYorkNewMonth 2)] 1706747400000000 =
        some (flat newYorkNewMonth 2).ohlcv := by
  refine ⟨winter_monthsKeep, ?_, ?_, ?_⟩
  · decide +kernel
  · decide +kernel
  · decide

end CandleStore
