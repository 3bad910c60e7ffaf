/-
**Backfill: what is missing is fetched gap by gap, and patched into the store.**

A window is read from the store, its gaps are found, and each gap is requested from a provider.  A
request that fails is skipped; what is answered is patched into the month files.  Patching would
overwrite stored candles, but no gap has a stored timestamp in it, wherever the timestamps lie.  So
the series of the store only grows, by what was answered.

Main definitions:

* `CandleStore.getLastTimestamp` — the last stored timestamp of a year;
* `Backfill.backfillSymbol` — the backfill of a window, with its defaults;
* `Backfill.FreeGaps` — gaps of a window without stored timestamps;
* `Backfill.Provider.Good` — what a provider may answer;
* `Backfill.Fills` — what a backfill should do.

Main results:

* `CandleStore.patch_written` — a patch counts its candles;
* `Backfill.findGaps_free` — the gaps of a read window are free;
* `Backfill.fillGaps_spec` — patching the answers, gap after gap;
* `Backfill.backfill_fills` — the backfill of a window, and a second one.
-/

import Brokerage.MissingRanges
import Brokerage.MixedOhlcv

set_option relaxedAutoImplicit false
set_option autoImplicit false

/-! ### The last timestamp -/

/-- The start of the previous month, from the start of a month.  There is no year 0. -/
def AwareDatetime.prevMonth (d : AwareDatetime) : Option AwareDatetime :=
  if h : 12 ≤ d.month - 1 then
    some (d.atMonth (d.month - 1) h (by have := d.month_max; omega))
  else
    none

namespace CandleStore

/-- The last timestamp of the files of some months, the latest month first. -/
def lastTimestampFrom (z : Zones) (files : Files) :
    ℕ → AwareDatetime → Option (Option AwareDatetime)
  | 0, _ => some none
  | left + 1, current =>
      match (readCsvFile z files current.month).getLast? with
      | some c => some (some c.timestamp)
      | none => current.prevMonth.bind (lastTimestampFrom z files left)

/-- The last timestamp of the files of the last twelve months. -/
def getLastTimestamp (z : Zones) (files : Files) (now : AwareDatetime) :
    Option (Option AwareDatetime) :=
  lastTimestampFrom z files 12 now.startOfMonth

/-- A patch counts its candles. -/
theorem patch_written (z : Zones) (files : Files) (cs : List Candle) :
    (patch z files cs).2 = cs.length := by
  have hsum := Dict.sum_length_group (fun c : Candle => c.timestamp.month) id cs
  rw [Dict.values, List.map_map] at hsum
  exact hsum

end CandleStore

namespace Backfill

open CandleStore (Files)
open MixedOhlcv (utcOnly UtcFiles)

/-! ### The service -/

/-- A provider of candles; a request that has no answer raises. -/
abbrev Provider := AwareDatetime → AwareDatetime → Option (List Candle)

section Service

variable (z : Zones) (fetchOhlcv : Provider)

/-- A gap is requested; what is answered is patched, and an exception is passed over. -/
def fillGap (state : Files × ℕ) (gap : Gap) : Files × ℕ :=
  match fetchOhlcv gap.start gap.end_ with
  | none => state
  | some candles =>
      if candles = [] then state
      else
        let patched := CandleStore.patch z state.1 candles
        (patched.1, state.2 + patched.2)

/-- The backfill of a window, and how many candles were written. -/
def backfillRange (files : Files) (start end_ : AwareDatetime) : Option (Files × ℕ) :=
  let start := start.startOfMinute
  let end_ := end_.startOfMinute
  match CandleStore.readRange z files start end_ true with
  | none => none
  | some currentRange =>
      if currentRange.isComplete then some (files, 0)
      else
        (GapValidator.findGaps z currentRange.candles start end_).map fun gaps =>
          gaps.foldl (fillGap z fetchOhlcv) (files, 0)

/-- The window ends now, unless an end is given, and starts some minutes before the last stored
timestamp, unless a start is given. -/
def backfillSymbol (correctiveWindowMinutes : ℤ) (now storeNow : AwareDatetime) (files : Files)
    (start end_ : Option AwareDatetime) : Option (Files × ℕ) :=
  let end_ := end_.getD now
  match start with
  | some start => backfillRange z fetchOhlcv files start end_
  | none =>
      match CandleStore.getLastTimestamp z files storeNow with
      | none => none
      | some none => some (files, 0)
      | some (some lastTs) =>
          (lastTs.add? (-(correctiveWindowMinutes * minuteMicros))).bind fun start =>
            backfillRange z fetchOhlcv files start end_

end Service

/-! ### Gaps without stored timestamps -/

/-- The instants of a gap. -/
def instants (g : Gap) : Span ℤ := ⟨utcOnly.instant g.start, utcOnly.instant g.end_⟩

/-- Ascending gaps between two instants, with no timestamp of some candles in them. -/
structure FreeGaps (lo hi : ℤ) (cs : List Candle) (gaps : List Gap) : Prop where
  utc : ∀ g ∈ gaps, g.start.zone = .utc ∧ g.end_.zone = .utc
  ascending : Span.Ascending (gaps.map instants)
  inside : ∀ g ∈ gaps, lo ≤ (instants g).lo ∧ (instants g).hi ≤ hi
  free : ∀ g ∈ gaps, ∀ c ∈ cs, c.instant utcOnly ∉ (instants g).points

variable {cs : List Candle} {lo mid hi : ℤ} {start end_ : AwareDatetime}

theorem FreeGaps.nil : FreeGaps lo hi cs [] where
  utc _ hg := by cases hg
  ascending := Span.Ascending.nil
  inside _ hg := by cases hg
  free _ hg := by cases hg

theorem FreeGaps.append {gaps more : List Gap} (h : FreeGaps lo mid cs gaps)
    (h' : FreeGaps mid hi cs more) (hlo : lo ≤ mid) (hhi : mid ≤ hi) :
    FreeGaps lo hi cs (gaps ++ more) := by
  refine ⟨fun g hg => ?_, ?_, fun g hg => ?_, fun g hg => ?_⟩
  · rcases List.mem_append.1 hg with hg | hg
    · exact h.utc g hg
    · exact h'.utc g hg
  · rw [List.map_append]
    refine h.ascending.append h'.ascending fun s hs t ht => ?_
    obtain ⟨g, hg, rfl⟩ := List.mem_map.1 hs
    obtain ⟨g', hg', rfl⟩ := List.mem_map.1 ht
    exact (h.inside g hg).2.trans (h'.inside g' hg').1
  · rcases List.mem_append.1 hg with hg | hg
    · exact ⟨(h.inside g hg).1, (h.inside g hg).2.trans hhi⟩
    · exact ⟨hlo.trans (h'.inside g hg).1, (h'.inside g hg).2⟩
  · rcases List.mem_append.1 hg with hg | hg
    · exact h.free g hg
    · exact h'.free g hg

/-- A gap that is reported if it has a minute, or at least an instant. -/
theorem FreeGaps.ite {a b : AwareDatetime} (ha : a.zone = .utc) (hb : b.zone = .utc) {p : Prop}
    [Decidable p] (hp : p → utcOnly.instant a < utcOnly.instant b) (hlo : lo ≤ utcOnly.instant a)
    (hhi : utcOnly.instant b ≤ hi)
    (hfree : ∀ c ∈ cs, c.instant utcOnly < utcOnly.instant a ∨
      utcOnly.instant b ≤ c.instant utcOnly) {count : ℤ} :
    FreeGaps lo hi cs (if p then [⟨a, b, count⟩] else []) := by
  split
  · rename_i h
    refine ⟨fun g hg => ?_, Span.Ascending.singleton (hp h), fun g hg => ?_, fun g hg c hc => ?_⟩
    · obtain rfl := List.mem_singleton.1 hg
      exact ⟨ha, hb⟩
    · obtain rfl := List.mem_singleton.1 hg
      exact ⟨hlo, hhi⟩
    · obtain rfl := List.mem_singleton.1 hg
      rw [Span.mem_points, instants]
      have := hfree c hc
      dsimp only
      omega
  · exact FreeGaps.nil

/-- The minute after a timestamp before a full minute exists. -/
theorem exists_nextMinute {d e : AwareDatetime} (hd : d.zone = .utc) (he : e.IsMinute)
    (hlt : utcOnly.instant d < utcOnly.instant e) :
    ∃ d', d.add? minuteMicros = some d' ∧ d'.zone = .utc ∧
      utcOnly.instant d' = utcOnly.instant d + minuteMicros := by
  have hmax : e.wall + minuteMicros ≤ monthStart 120000 := by
    have hlast := e.maxyear
    obtain ⟨k, hk⟩ := he.aligned
    obtain ⟨m, hm⟩ := minuteMicros_dvd_monthStart 120000
    rw [hk, hm, minuteMicros] at hlast ⊢
    omega
  rw [Zones.instant_utc hd, Zones.instant_utc he.zone] at hlt
  have hmin := d.minyear
  have hnonneg : 0 ≤ minuteMicros := by decide
  have hbounds : monthStart 12 ≤ d.wall + minuteMicros ∧ d.wall + minuteMicros < monthStart 120000 :=
    ⟨by omega, by omega⟩
  refine ⟨_, dif_pos hbounds, hd, ?_⟩
  rw [Zones.instant_utc hd]
  exact Zones.instant_utc hd

/-- The gaps after a candle have no timestamp of the candles up to it and of the later ones. -/
theorem gapsFrom_free {all : List Candle} {c : Candle} (he : end_.IsMinute)
    (hfirst : ∃ e : AwareDatetime, end_.add? (-minuteMicros) = some e)
    (hutc : ∀ d ∈ c :: cs, d.timestamp.zone = .utc)
    (hsorted : (c :: cs).Pairwise fun a b => a.instant utcOnly < b.instant utcOnly)
    (hlt : ∀ d ∈ c :: cs, d.instant utcOnly < utcOnly.instant end_)
    (hall : ∀ d ∈ all, d.instant utcOnly ≤ c.instant utcOnly ∨ d ∈ cs) :
    ∃ gaps, GapValidator.gapsFrom utcOnly c cs end_ = some gaps ∧
      FreeGaps (c.instant utcOnly) (utcOnly.instant end_) all gaps := by
  have hnonneg : 0 < minuteMicros := by decide
  induction cs generalizing c with
  | nil =>
      obtain ⟨expectedLast, hexp⟩ := hfirst
      have hc := hutc c List.mem_cons_self
      obtain ⟨gapStart, hgap, hzone, hinst⟩ :=
        exists_nextMinute hc he (hlt c List.mem_cons_self)
      have hexpZone := (AwareDatetime.add?_eq_some hexp).1.trans he.zone
      have hexpWall := (AwareDatetime.add?_eq_some hexp).2
      rw [GapValidator.gapsFrom, GapValidator.gapAfter, hexp]
      dsimp only
      split
      · rename_i hlast
        rw [Zones.lt_iff_of_utc (Or.inl hc), Zones.instant_utc hexpZone, hexpWall] at hlast
        rw [hgap]
        refine ⟨_, rfl, FreeGaps.ite hzone he.zone (fun _ => ?_) ?_ le_rfl fun d hd => ?_⟩
        · rw [hinst, Zones.instant_utc he.zone]
          omega
        · rw [hinst, Candle.instant]
          omega
        · have hle := (hall d hd).resolve_right (fun h => by cases h)
          rw [hinst]
          exact Or.inl (hle.trans_lt (lt_add_of_pos_right _ hnonneg))
      · exact ⟨[], rfl, FreeGaps.nil⟩
  | cons next cs ih =>
      have hnext : next ∈ c :: next :: cs := List.mem_cons_of_mem _ List.mem_cons_self
      have hc := hutc c List.mem_cons_self
      have hstep : c.instant utcOnly < next.instant utcOnly :=
        List.rel_of_pairwise_cons hsorted List.mem_cons_self
      obtain ⟨e, hadd, hzone, hinst⟩ := exists_nextMinute hc he (hlt c List.mem_cons_self)
      obtain ⟨more, hmore, hfree⟩ := ih (fun d hd => hutc d (List.mem_cons_of_mem _ hd))
        hsorted.of_cons (fun d hd => hlt d (List.mem_cons_of_mem _ hd)) fun d hd => by
          rcases hall d hd with h | h
          · exact Or.inl (h.trans hstep.le)
          · rcases List.mem_cons.1 h with rfl | h
            · exact Or.inl le_rfl
            · exact Or.inr h
      refine ⟨_, by rw [GapValidator.gapsFrom, GapValidator.gapBetween, hadd, hmore]; rfl, ?_⟩
      refine FreeGaps.append ?_ hfree hstep.le (hlt next hnext).le
      refine FreeGaps.ite hzone (hutc next hnext) (fun h => ?_) ?_ le_rfl fun d hd => ?_
      · exact (Zones.lt_iff_of_utc (Or.inl hzone)).1 h
      · rw [hinst, Candle.instant]
        omega
      · -- the candles up to the first one come before the gap, the others after it
        rcases hall d hd with h | h
        · rw [hinst]
          exact Or.inl (h.trans_lt (lt_add_of_pos_right _ hnonneg))
        · refine Or.inr ?_
          rcases List.mem_cons.1 h with rfl | h
          · exact le_rfl
          · exact (List.rel_of_pairwise_cons hsorted.of_cons h).le

/-- The gaps of a window of full minutes have no timestamp of its candles. -/
theorem findGaps_free (hs : start.IsMinute) (he : end_.IsMinute)
    (hlt : utcOnly.instant start < utcOnly.instant end_)
    (hutc : ∀ c ∈ cs, c.timestamp.zone = .utc)
    (hsorted : cs.Pairwise fun a b => a.instant utcOnly < b.instant utcOnly)
    (hmem : ∀ c ∈ cs, utcOnly.instant start ≤ c.instant utcOnly ∧
      c.instant utcOnly < utcOnly.instant end_) :
    ∃ gaps, GapValidator.findGaps utcOnly cs start end_ = some gaps ∧
      FreeGaps (utcOnly.instant start) (utcOnly.instant end_) cs gaps := by
  cases cs with
  | nil =>
      refine ⟨_, rfl, ?_⟩
      have hfree : FreeGaps (utcOnly.instant start) (utcOnly.instant end_) [] (if True then
          [⟨start, end_, minutesBetween utcOnly start end_⟩] else []) :=
        FreeGaps.ite hs.zone he.zone (fun _ => hlt) le_rfl le_rfl fun c hc =>
          absurd hc List.not_mem_nil
      rwa [if_pos trivial] at hfree
  | cons first more =>
      have hfirst := hmem first List.mem_cons_self
      have hexp : ∃ e : AwareDatetime, end_.add? (-minuteMicros) = some e := by
        have hminute := (GapValidator.minute_lt_iff (z := utcOnly) hs he).2 hlt
        obtain ⟨e, h⟩ := he.exists_add? (z := utcOnly) (k := -1) hs he (by omega) (by omega)
        rw [neg_one_mul] at h
        exact ⟨e, h⟩
      have hall : ∀ d ∈ first :: more, d.instant utcOnly ≤ first.instant utcOnly ∨ d ∈ more := by
        intro d hd
        rcases List.mem_cons.1 hd with rfl | hd
        · exact Or.inl le_rfl
        · exact Or.inr hd
      obtain ⟨gaps, hgaps, hfree⟩ :=
        gapsFrom_free he hexp hutc hsorted (fun d hd => (hmem d hd).2) hall
      refine ⟨_, by rw [GapValidator.findGaps, hgaps]; rfl, ?_⟩
      refine FreeGaps.append ?_ hfree hfirst.1 hfirst.2.le
      refine FreeGaps.ite hs.zone (hutc first List.mem_cons_self) (fun h => ?_) le_rfl le_rfl
        fun d hd => Or.inr ?_
      · exact (Zones.lt_iff_of_utc (Or.inl hs.zone)).1 h.1
      · rcases List.mem_cons.1 hd with rfl | hd
        · exact le_rfl
        · exact (List.rel_of_pairwise_cons hsorted hd).le

/-! ### Patching the answers -/

/-- What a provider may answer: candles of UTC at full seconds, in the requested range, and no
timestamp twice. -/
def Provider.Good (fetchOhlcv : Provider) : Prop :=
  ∀ start end_ cs, fetchOhlcv start end_ = some cs →
    (∀ c ∈ cs, c.timestamp.zone = .utc ∧ 1000000 ∣ c.timestamp.wall ∧
      utcOnly.instant start ≤ c.instant utcOnly ∧ c.instant utcOnly < utcOnly.instant end_) ∧
    (cs.map (Candle.instant utcOnly)).Nodup

/-- What is answered for some gaps. -/
def answered (fetchOhlcv : Provider) (gaps : List Gap) : List (ℤ × Ohlcv) :=
  gaps.flatMap fun g => ((fetchOhlcv g.start g.end_).getD []).map (Candle.entry utcOnly)

variable {fetchOhlcv : Provider} {files : Files} {gaps : List Gap}

theorem mem_answered {t : ℤ} {v : Ohlcv} : (t, v) ∈ answered fetchOhlcv gaps ↔
    ∃ g ∈ gaps, ∃ cs, fetchOhlcv g.start g.end_ = some cs ∧
      ∃ c ∈ cs, c.entry utcOnly = (t, v) := by
  simp only [answered, List.mem_flatMap, List.mem_map]
  refine exists_congr fun g => and_congr_right fun _ => ?_
  cases h : fetchOhlcv g.start g.end_ with
  | none => simp
  | some cs => simp

/-- What is answered for a gap lies in it. -/
theorem Provider.Good.mem_points (hfetch : fetchOhlcv.Good) {t : ℤ} {v : Ohlcv}
    (h : (t, v) ∈ answered fetchOhlcv gaps) : ∃ g ∈ gaps, t ∈ (instants g).points := by
  obtain ⟨g, hg, cs, hcs, c, hc, hentry⟩ := mem_answered.1 h
  have hinst : c.instant utcOnly = t := congrArg Prod.fst hentry
  obtain ⟨-, -, hge, hlt⟩ := (hfetch _ _ _ hcs).1 c hc
  exact ⟨g, hg, hinst ▸ hge, hinst ▸ hlt⟩

/-- No timestamp is answered twice. -/
theorem Provider.Good.nodup_answered (hfetch : fetchOhlcv.Good)
    (hasc : Span.Ascending (gaps.map instants)) :
    ((answered fetchOhlcv gaps).map Prod.fst).Nodup := by
  induction gaps with
  | nil => exact List.nodup_nil
  | cons g gaps ih =>
      rw [answered, List.flatMap_cons, List.map_append]
      refine List.nodup_append.2 ⟨?_, ih hasc.tail, ?_⟩
      · rw [Candle.map_fst_entry]
        cases h : fetchOhlcv g.start g.end_ with
        | none => exact List.nodup_nil
        | some cs => exact (hfetch _ _ _ h).2
      · -- the answers for two gaps lie in different spans
        intro t ht u hu htu
        obtain ⟨⟨t, v⟩, hv, rfl⟩ := List.mem_map.1 ht
        obtain ⟨⟨u, w⟩, hw, rfl⟩ := List.mem_map.1 hu
        obtain rfl : t = u := htu
        have hfirst : (t, v) ∈ answered fetchOhlcv [g] := by
          rw [answered, List.flatMap_singleton]
          exact hv
        obtain ⟨g₁, hg₁, hin₁⟩ := hfetch.mem_points hfirst
        obtain ⟨g₂, hg₂, hin₂⟩ := hfetch.mem_points hw
        obtain rfl := List.mem_singleton.1 hg₁
        have hdisjoint := List.rel_of_pairwise_cons hasc.disjoint (List.mem_map_of_mem hg₂)
        exact Set.disjoint_left.1 hdisjoint hin₁ hin₂

theorem fillGap_spec (hfetch : fetchOhlcv.Good) (hfiles : UtcFiles files) (n : ℕ) (g : Gap) :
    UtcFiles (fillGap utcOnly fetchOhlcv (files, n) g).1 ∧
      (∀ t, CandleStore.seriesOf utcOnly (fillGap utcOnly fetchOhlcv (files, n) g).1 t =
        ((answered fetchOhlcv [g]).lookup t).or (CandleStore.seriesOf utcOnly files t)) ∧
      (fillGap utcOnly fetchOhlcv (files, n) g).2 = n + (answered fetchOhlcv [g]).length := by
  rw [answered, List.flatMap_singleton, fillGap]
  cases h : fetchOhlcv g.start g.end_ with
  | none => exact ⟨hfiles, fun t => rfl, rfl⟩
  | some cs =>
      obtain ⟨hcs, hnodup⟩ := hfetch _ _ _ h
      dsimp only
      split
      · rename_i hnil
        subst hnil
        exact ⟨hfiles, fun t => rfl, rfl⟩
      · have hfaithful : CandleStore.Faithful utcOnly (· = .utc) files (.patch cs) := by
          refine ⟨fun c hc => Candle.storable_utc (hcs c hc).1 (hcs c hc).2.1, fun c hc e he => ?_⟩
          refine CandleStore.eqFaithful_of_utc ?_ (hcs c hc).1
          rcases List.mem_append.1 he with he | he
          · exact CandleStore.zone_of_mem_readCsvFile he
          · exact (hcs e he).1
        obtain ⟨hinv, hseries⟩ := CandleStore.patch_refines hfiles rfl hfaithful
        refine ⟨hinv, fun t => ?_, ?_⟩
        · have hkeys : ((cs.map (Candle.entry utcOnly)).map Prod.fst).Nodup := by
            rw [Candle.map_fst_entry]
            exact hnodup
          rw [hseries, Series.patch, Dict.lookup_of_perm (List.reverse_perm _) hkeys]
          rfl
        · rw [CandleStore.patch_written, Option.getD_some, List.length_map]

/-- Patching the answers, gap after gap, adds them to the series. -/
theorem fillGaps_spec (hfetch : fetchOhlcv.Good) (hfiles : UtcFiles files)
    (hasc : Span.Ascending (gaps.map instants)) (n : ℕ) :
    ∃ files' n', gaps.foldl (fillGap utcOnly fetchOhlcv) (files, n) = (files', n') ∧
      UtcFiles files' ∧
      (∀ t, CandleStore.seriesOf utcOnly files' t =
        ((answered fetchOhlcv gaps).lookup t).or (CandleStore.seriesOf utcOnly files t)) ∧
      n' = n + (answered fetchOhlcv gaps).length := by
  induction gaps generalizing files n with
  | nil => exact ⟨files, n, rfl, hfiles, fun t => rfl, rfl⟩
  | cons g gaps ih =>
      obtain ⟨hfiles₁, hseries₁, hn₁⟩ := fillGap_spec hfetch hfiles n g
      obtain ⟨files', n', hfold, hfiles', hseries', hn'⟩ := ih hfiles₁ hasc.tail
        (fillGap utcOnly fetchOhlcv (files, n) g).2
      have hsplit : answered fetchOhlcv (g :: gaps) =
          answered fetchOhlcv [g] ++ answered fetchOhlcv gaps := by
        rw [answered, List.flatMap_cons, answered, List.flatMap_singleton]
        rfl
      refine ⟨files', n', hfold, hfiles', fun t => ?_, ?_⟩
      · have hnodup := hfetch.nodup_answered hasc
        rw [hsplit] at hnodup
        rw [hseries', hseries₁, ← Option.or_assoc, hsplit,
          ← Dict.lookup_of_perm List.perm_append_comm hnodup, List.lookup_append]
      · rw [hn', hn₁, hsplit, List.length_append, Nat.add_assoc]

/-! ### The gaps that are requested -/

/-- The gaps that a backfill requests. -/
def requests (files : Files) (start end_ : AwareDatetime) : Option (List Gap) :=
  (CandleStore.readRange utcOnly files start end_ true).bind fun range =>
    if range.isComplete then some []
    else GapValidator.findGaps utcOnly range.candles start end_

theorem backfillRange_eq (fetchOhlcv : Provider) (files : Files) (start end_ : AwareDatetime) :
    backfillRange utcOnly fetchOhlcv files start end_ =
      (requests files start.startOfMinute end_.startOfMinute).map fun gaps =>
        gaps.foldl (fillGap utcOnly fetchOhlcv) (files, 0) := by
  rw [backfillRange, requests]
  cases CandleStore.readRange utcOnly files start.startOfMinute end_.startOfMinute true with
  | none => rfl
  | some range =>
      rw [Option.bind_some]
      dsimp only
      split
      · rfl
      · rfl

/-- The minutes of a window, as instants. -/
def IsMinuteIn (start end_ : AwareDatetime) (t : ℤ) : Prop :=
  minuteMicros ∣ t ∧ utcOnly.instant start ≤ t ∧ t < utcOnly.instant end_

/-- The requested gaps have no stored timestamp; if the stored timestamps of the window are full
minutes, they have all its missing minutes; and there are none if no minute is missing. -/
structure Requested (files : Files) (start end_ : AwareDatetime) (gaps : List Gap) : Prop where
  ascending : Span.Ascending (gaps.map instants)
  inside : ∀ g ∈ gaps, utcOnly.instant start ≤ (instants g).lo ∧
    (instants g).hi ≤ utcOnly.instant end_
  free : ∀ g ∈ gaps, ∀ t ∈ (instants g).points, CandleStore.seriesOf utcOnly files t = none
  all : (∀ t v, utcOnly.instant start ≤ t → t < utcOnly.instant end_ →
      CandleStore.seriesOf utcOnly files t = some v → minuteMicros ∣ t) →
    ∀ t, IsMinuteIn start end_ t → CandleStore.seriesOf utcOnly files t = none →
      ∃ g ∈ gaps, t ∈ (instants g).points
  eq_nil : (∀ t, IsMinuteIn start end_ t → CandleStore.seriesOf utcOnly files t ≠ none) →
    gaps = []

theorem isComplete_iff {range : CandleRange}
    (h : CandleStore.readRange utcOnly files start end_ true = some range) :
    range.isComplete = true ↔ minutesBetween utcOnly start end_ ≤ range.candles.length := by
  obtain ⟨cs, -, rfl⟩ := Option.map_eq_some_iff.1 h
  change decide (max 0 (minutesBetween utcOnly start end_ - (cs.length : ℤ)) = 0) = true ↔
    minutesBetween utcOnly start end_ ≤ (cs.length : ℤ)
  rw [decide_eq_true_eq]
  omega

/-- A window with a candle for every minute is complete. -/
theorem le_length_of_stored (hs : start.IsMinute) (he : end_.IsMinute)
    (hall : ∀ t, IsMinuteIn start end_ t → t ∈ cs.map (Candle.instant utcOnly)) :
    minutesBetween utcOnly start end_ ≤ cs.length := by
  have hsub : minutesOf utcOnly start end_ ⊆ cs.map (Candle.instant utcOnly) := by
    intro t ht
    rw [mem_minutesOf (by rw [hs.instant_eq]; exact Dvd.intro_left _ rfl)
      (by rw [he.instant_eq]; exact Dvd.intro_left _ rfl)] at ht
    exact hall t ht
  have hlength := (nodup_minutesOf.subperm hsub).length_le
  rw [hs.minutesBetween_eq he]
  rw [minutesOf, List.length_map, List.length_map, List.length_range, hs.instant_eq,
    he.instant_eq] at hlength
  rw [minuteMicros] at hlength
  omega

theorem instants_points_iff {g : Gap} (hg : g.Exact utcOnly) {t : ℤ} (ht : minuteMicros ∣ t) :
    t ∈ (instants g).points ↔ t / minuteMicros ∈ (g.span utcOnly).points := by
  obtain ⟨k, rfl⟩ := ht
  rw [Span.mem_points, Span.mem_points, instants, Gap.span, hg.start.instant_eq, hg.end_.instant_eq,
    minuteMicros]
  dsimp only
  omega

/-- A minute of a window without a candle is in one of its gaps. -/
theorem missing_in_gaps (h : GapValidator.IsSeries utcOnly start end_ cs)
    (hgaps : GapValidator.findGaps utcOnly cs start end_ = some gaps) {t : ℤ}
    (ht : IsMinuteIn start end_ t) (hnot : t ∉ cs.map (Candle.instant utcOnly)) :
    ∃ g ∈ gaps, t ∈ (instants g).points := by
  obtain ⟨gaps', hgaps', hexact, hspans⟩ := GapValidator.findGaps_spans h
  obtain rfl := Option.some.inj (hgaps.symm.trans hgaps')
  have hcover := (GapValidator.exactGaps_of_spans h hexact hspans).cover
  have hin : t / minuteMicros ∈ GapValidator.windowMinutes utcOnly start end_ := by
    obtain ⟨⟨k, rfl⟩, hge, hlt⟩ := ht
    rw [h.start_minute.instant_eq] at hge
    rw [h.end_minute.instant_eq] at hlt
    rw [minuteMicros] at hge hlt ⊢
    exact ⟨by omega, by omega⟩
  rw [← hcover] at hin
  rcases hin with ⟨s, hs, hpoint⟩ | hcandle
  · obtain ⟨g, hg, rfl⟩ := List.mem_map.1 hs
    exact ⟨g, hg, (instants_points_iff (hexact g hg) ht.1).2 hpoint⟩
  · -- the minute of a candle is its instant
    obtain ⟨c, hc, hminute⟩ := List.mem_map.1 hcandle
    refine absurd (List.mem_map.2 ⟨c, hc, ?_⟩) hnot
    have hinst : c.instant utcOnly = c.timestamp.minute utcOnly * minuteMicros :=
      (h.minute c hc).instant_eq
    rw [hinst, ← Int.ediv_mul_cancel ht.1, ← hminute]
    rfl

/-- A complete window has a candle for every minute. -/
theorem stored_of_le_length (h : GapValidator.IsSeries utcOnly start end_ cs)
    (hle : minutesBetween utcOnly start end_ ≤ cs.length) {t : ℤ} (ht : IsMinuteIn start end_ t) :
    t ∈ cs.map (Candle.instant utcOnly) := by
  have hdvd : ∀ d : AwareDatetime, d.IsMinute → minuteMicros ∣ utcOnly.instant d := by
    intro d hd
    rw [hd.instant_eq]
    exact Dvd.intro_left _ rfl
  have hwindow : IsWindow utcOnly start end_ cs :=
    ⟨hdvd _ h.start_minute, hdvd _ h.end_minute, h.lt, fun c hc => hdvd _ (h.minute c hc), h.start_le,
      h.lt_end, (List.pairwise_map.2 h.sorted).imp fun hlt => hlt.ne⟩
  have hadd := hwindow.missing_add_length
  obtain ⟨hspan, -⟩ := hwindow.length_minutesOf
  have hzero : missingMinutes utcOnly start end_ cs = 0 := by
    rw [h.start_minute.minutesBetween_eq h.end_minute] at hle
    rw [h.start_minute.instant_eq, h.end_minute.instant_eq, minuteMicros] at hspan
    omega
  obtain ⟨c, hc, hinst⟩ := hwindow.missing_eq_zero_iff.1 hzero t ht.1 ht.2.1 ht.2.2
  exact List.mem_map.2 ⟨c, hc, hinst⟩

/-- What a backfill requests of a window that can be read. -/
theorem requests_spec (hfiles : UtcFiles files) (hs : start.IsMinute) (he : end_.IsMinute)
    (hle : utcOnly.instant start ≤ utcOnly.instant end_) (hyear : end_.wall ≤ monthStart 119999) :
    ∃ gaps, requests files start end_ = some gaps ∧ Requested files start end_ gaps := by
  have hlast : utcOnly.lt (CandleStore.lastMonth start) end_ = false := by
    rw [MixedOhlcv.lastMonth_lt (hs.zone.trans he.zone.symm)]
    exact decide_eq_false (not_lt.2 hyear)
  obtain ⟨range, hrange, hsorted, hentries⟩ := CandleStore.readRange_spec
    MixedOhlcv.utcOnly_monthsKeep hfiles rfl hs.zone hlast true
  have hstored : ∀ t, t ∈ range.candles.map (Candle.instant utcOnly) ↔
      utcOnly.instant start ≤ t ∧ t < utcOnly.instant end_ ∧
        CandleStore.seriesOf utcOnly files t ≠ none := by
    intro t
    rw [← Candle.map_fst_entry, List.mem_map]
    constructor
    · rintro ⟨⟨t, v⟩, hmem, rfl⟩
      obtain ⟨hge, hlt, hv⟩ := (hentries t v).1 hmem
      exact ⟨hge, hlt, by rw [hv]; exact Option.some_ne_none v⟩
    · rintro ⟨hge, hlt, hv⟩
      obtain ⟨v, hv⟩ := Option.ne_none_iff_exists'.1 hv
      exact ⟨(t, v), (hentries t v).2 ⟨hge, hlt, hv⟩, rfl⟩
  have hcandle : ∀ c ∈ range.candles, utcOnly.instant start ≤ c.instant utcOnly ∧
      c.instant utcOnly < utcOnly.instant end_ := by
    intro c hc
    obtain ⟨hge, hlt, -⟩ := (hstored _).1 (List.mem_map_of_mem hc)
    exact ⟨hge, hlt⟩
  have hutc : ∀ c ∈ range.candles, c.timestamp.zone = .utc := by
    obtain ⟨cs, hcs, hval⟩ := Option.map_eq_some_iff.1 hrange
    intro c hc
    rw [← hval] at hc
    exact CandleStore.zone_of_mem_readMonths hcs hc
  have hseries : (∀ t v, utcOnly.instant start ≤ t → t < utcOnly.instant end_ →
      CandleStore.seriesOf utcOnly files t = some v → minuteMicros ∣ t) →
      ∀ t, IsMinuteIn start end_ t → GapValidator.IsSeries utcOnly start end_ range.candles := by
    intro haligned t ht
    refine ⟨hs, he, ht.2.1.trans_lt ht.2.2, fun c hc => ⟨hutc c hc, ?_⟩,
      fun c hc => (hcandle c hc).1, fun c hc => (hcandle c hc).2, List.pairwise_map.1 hsorted⟩
    obtain ⟨hge, hlt, hv⟩ := (hentries _ _).1 (List.mem_map_of_mem (f := Candle.entry utcOnly) hc)
    have hdvd := haligned _ _ hge hlt hv
    rwa [Candle.instant, Zones.instant_utc (hutc c hc)] at hdvd
  have hmissing : ∀ t, IsMinuteIn start end_ t → CandleStore.seriesOf utcOnly files t = none →
      t ∉ range.candles.map (Candle.instant utcOnly) :=
    fun t _ hnone hmem => ((hstored t).1 hmem).2.2 hnone
  rw [requests, hrange, Option.bind_some]
  by_cases hcomplete : range.isComplete = true
  · rw [if_pos hcomplete]
    refine ⟨[], rfl, Span.Ascending.nil, fun g hg => (by cases hg), fun g hg => (by cases hg),
      fun haligned t ht hnone => ?_, fun _ => rfl⟩
    exact absurd (stored_of_le_length (hseries haligned t ht) ((isComplete_iff hrange).1 hcomplete) ht)
      (hmissing t ht hnone)
  · rw [if_neg hcomplete]
    have hnot := fun h => hcomplete ((isComplete_iff hrange).2 h)
    have hlt : utcOnly.instant start < utcOnly.instant end_ := by
      refine lt_of_le_of_ne hle fun heq => hnot ?_
      rw [hs.minutesBetween_eq he, AwareDatetime.minute, AwareDatetime.minute, heq]
      omega
    obtain ⟨gaps, hgaps, hfree⟩ := findGaps_free hs he hlt hutc (List.pairwise_map.1 hsorted) hcandle
    refine ⟨gaps, hgaps, hfree.ascending, hfree.inside, fun g hg t ht => ?_,
      fun haligned t ht hnone => ?_, fun hall => absurd (le_length_of_stored hs he ?_) hnot⟩
    · by_contra hv
      have hin := hfree.inside g hg
      obtain ⟨c, hc, rfl⟩ := List.mem_map.1
        ((hstored t).2 ⟨hin.1.trans ht.1, ht.2.trans_le hin.2, hv⟩)
      exact hfree.free g hg c hc ht
    · exact missing_in_gaps (hseries haligned t ht) hgaps ht (hmissing t ht hnone)
    · exact fun t ht => (hstored t).2 ⟨ht.2.1, ht.2.2, hall t ht⟩

/-! ### What a backfill does -/

/-- The timestamps that were added. -/
def addedTimestamps (files files' : Files) : Set ℤ :=
  {t | CandleStore.seriesOf utcOnly files t = none ∧ CandleStore.seriesOf utcOnly files' t ≠ none}

/-- What is answered for the gaps is added and counted, and everything else stays as it was. -/
structure Fills (fetchOhlcv : Provider) (files : Files) (start end_ : AwareDatetime)
    (gaps : List Gap) (files' : Files) (n : ℕ) : Prop where
  holds : ∀ g ∈ gaps, ∀ cs, fetchOhlcv g.start g.end_ = some cs → ∀ c ∈ cs,
    CandleStore.seriesOf utcOnly files' (c.instant utcOnly) = some c.ohlcv
  keeps : ∀ t v, CandleStore.seriesOf utcOnly files t = some v →
    CandleStore.seriesOf utcOnly files' t = some v
  adds : ∀ t v, CandleStore.seriesOf utcOnly files t = none →
    CandleStore.seriesOf utcOnly files' t = some v → (t, v) ∈ answered fetchOhlcv gaps
  outside : ∀ t, t < utcOnly.instant start ∨ utcOnly.instant end_ ≤ t →
    CandleStore.seriesOf utcOnly files' t = CandleStore.seriesOf utcOnly files t
  finite : (addedTimestamps files files').Finite
  count : (addedTimestamps files files').ncard = n

theorem fills_of_requested (hfetch : fetchOhlcv.Good) {files' : Files}
    (hreq : Requested files start end_ gaps)
    (hseries : ∀ t, CandleStore.seriesOf utcOnly files' t =
      ((answered fetchOhlcv gaps).lookup t).or (CandleStore.seriesOf utcOnly files t)) :
    Fills fetchOhlcv files start end_ gaps files' (answered fetchOhlcv gaps).length := by
  have hnodup := hfetch.nodup_answered hreq.ascending
  have hlookup : ∀ t v, (answered fetchOhlcv gaps).lookup t = some v ↔
      (t, v) ∈ answered fetchOhlcv gaps := fun t v => Dict.lookup_eq_some_iff_mem hnodup
  -- what is answered was missing
  have hnone : ∀ t v, (t, v) ∈ answered fetchOhlcv gaps →
      CandleStore.seriesOf utcOnly files t = none := by
    intro t v hmem
    obtain ⟨g, hg, hpoint⟩ := hfetch.mem_points hmem
    exact hreq.free g hg t hpoint
  have hkeeps : ∀ t v, CandleStore.seriesOf utcOnly files t = some v →
      CandleStore.seriesOf utcOnly files' t = some v := by
    intro t v hv
    have hout : (answered fetchOhlcv gaps).lookup t = none := by
      rw [Option.eq_none_iff_forall_not_mem]
      intro w hw
      rw [hnone t w ((hlookup t w).1 hw)] at hv
      cases hv
    rw [hseries, hout, Option.none_or, hv]
  have hadds : ∀ t v, CandleStore.seriesOf utcOnly files t = none →
      CandleStore.seriesOf utcOnly files' t = some v → (t, v) ∈ answered fetchOhlcv gaps := by
    intro t v ht hv
    rw [hseries, ht, Option.or_none] at hv
    exact (hlookup t v).1 hv
  have hset : addedTimestamps files files' =
      ((answered fetchOhlcv gaps).map Prod.fst).toFinset := by
    ext t
    rw [Finset.mem_coe, List.mem_toFinset, List.mem_map]
    constructor
    · rintro ⟨ht, hsome⟩
      obtain ⟨v, hv⟩ := Option.ne_none_iff_exists'.1 hsome
      exact ⟨(t, v), hadds t v ht hv, rfl⟩
    · rintro ⟨⟨t, v⟩, hmem, rfl⟩
      refine ⟨hnone t v hmem, ?_⟩
      rw [hseries, (hlookup t v).2 hmem]
      exact Option.some_ne_none v
  refine ⟨fun g hg cs hcs c hc => ?_, hkeeps, hadds, fun t ht => ?_, ?_, ?_⟩
  · have hmem : (c.instant utcOnly, c.ohlcv) ∈ answered fetchOhlcv gaps :=
      mem_answered.2 ⟨g, hg, cs, hcs, c, hc, rfl⟩
    rw [hseries, (hlookup _ _).2 hmem]
    rfl
  · cases hold : CandleStore.seriesOf utcOnly files t with
    | some v => exact hkeeps t v hold
    | none =>
        by_contra hsome
        obtain ⟨v, hv⟩ := Option.ne_none_iff_exists'.1 hsome
        obtain ⟨g, hg, hpoint⟩ := hfetch.mem_points (hadds t v hold hv)
        have hin := hreq.inside g hg
        have hpoint' := Span.mem_points.1 hpoint
        omega
  · rw [hset]
    exact Finset.finite_toSet _
  · rw [hset, Set.ncard_coe_finset, List.toFinset_card_of_nodup hnodup, List.length_map]

/-- Without a new answer nothing is written. -/
theorem fillGaps_eq_self (h : answered fetchOhlcv gaps = []) (n : ℕ) :
    gaps.foldl (fillGap utcOnly fetchOhlcv) (files, n) = (files, n) := by
  induction gaps with
  | nil => rfl
  | cons g gaps ih =>
      rw [answered, List.flatMap_cons, List.append_eq_nil_iff] at h
      have hgap : fillGap utcOnly fetchOhlcv (files, n) g = (files, n) := by
        have hnil := h.1
        rw [fillGap]
        cases hg : fetchOhlcv g.start g.end_ with
        | none => rfl
        | some cs =>
            rw [hg, Option.getD_some, List.map_eq_nil_iff] at hnil
            exact if_pos hnil
      rw [List.foldl_cons, hgap]
      exact ih h.2

/-- Every answer to the later requests was an answer to the earlier ones. -/
def SameAnswers (earlier later : Provider) (gaps gaps' : List Gap) : Prop :=
  answered later gaps' ⊆ answered earlier gaps

/-- What a second backfill does after a first one. -/
structure Again (fetchOhlcv fetchAgain : Provider) (start end_ : AwareDatetime)
    (gaps gaps' : List Gap) (files' files'' : Files) (n' : ℕ) : Prop where
  fills : Fills fetchAgain files' start end_ gaps' files'' n'
  filled : ∀ g ∈ gaps, (∀ t ∈ (instants g).points, minuteMicros ∣ t →
      CandleStore.seriesOf utcOnly files' t ≠ none) →
    ∀ t ∈ (instants g).points, minuteMicros ∣ t → t ∉ addedTimestamps files' files''
  same : SameAnswers fetchOhlcv fetchAgain gaps gaps' → files'' = files' ∧ n' = 0
  complete : (∀ t, IsMinuteIn start end_ t → CandleStore.seriesOf utcOnly files' t ≠ none) →
    files'' = files' ∧ n' = 0

theorem isMinute_startOfMinute {d : AwareDatetime} (h : d.zone = .utc) : d.startOfMinute.IsMinute :=
  ⟨h, minuteMicros_dvd_floorMinute d.wall⟩

theorem instant_startOfMinute_le {d e : AwareDatetime} (hd : d.zone = .utc) (he : e.zone = .utc)
    (h : d.wall ≤ e.wall) :
    utcOnly.instant d.startOfMinute ≤ utcOnly.instant e.startOfMinute := by
  rw [Zones.instant_utc (show d.startOfMinute.zone = .utc from hd),
    Zones.instant_utc (show e.startOfMinute.zone = .utc from he)]
  exact floorMinute_mono h

/-- A backfill of a window that can be read. -/
theorem backfillRange_fills (hfetch : fetchOhlcv.Good) (hfiles : UtcFiles files)
    (hs : start.zone = .utc) (he : end_.zone = .utc) (hle : start.wall ≤ end_.wall)
    (hyear : end_.startOfMinute.wall ≤ monthStart 119999) :
    ∃ gaps files' n, requests files start.startOfMinute end_.startOfMinute = some gaps ∧
      Requested files start.startOfMinute end_.startOfMinute gaps ∧
      gaps.foldl (fillGap utcOnly fetchOhlcv) (files, 0) = (files', n) ∧
      backfillRange utcOnly fetchOhlcv files start end_ = some (files', n) ∧ UtcFiles files' ∧
      Fills fetchOhlcv files start.startOfMinute end_.startOfMinute gaps files' n := by
  obtain ⟨gaps, hgaps, hreq⟩ := requests_spec hfiles (isMinute_startOfMinute hs)
    (isMinute_startOfMinute he) (instant_startOfMinute_le hs he hle) hyear
  obtain ⟨files', n, hfold, hfiles', hseries, hn⟩ := fillGaps_spec hfetch hfiles hreq.ascending 0
  refine ⟨gaps, files', n, hgaps, hreq, hfold, ?_, hfiles', ?_⟩
  · rw [backfillRange_eq, hgaps, Option.map_some, hfold]
  · rw [hn, Nat.zero_add]
    exact fills_of_requested hfetch hreq hseries

/-- A second backfill adds nothing in the gaps that are filled, and nothing at all if it gets the
same answers, or if no minute is missing. -/
theorem again_spec {fetchAgain : Provider} (hagain : fetchAgain.Good) {files' files'' : Files}
    {gaps' : List Gap} {n n' : ℕ} (hfills : Fills fetchOhlcv files start end_ gaps files' n)
    (hreq : Requested files' start end_ gaps')
    (hfold : gaps'.foldl (fillGap utcOnly fetchAgain) (files', 0) = (files'', n'))
    (hfills' : Fills fetchAgain files' start end_ gaps' files'' n') :
    Again fetchOhlcv fetchAgain start end_ gaps gaps' files' files'' n' := by
  have hempty : answered fetchAgain gaps' = [] → files'' = files' ∧ n' = 0 := by
    intro h
    rw [fillGaps_eq_self h] at hfold
    obtain ⟨rfl, rfl⟩ := Prod.mk.inj hfold
    exact ⟨rfl, rfl⟩
  refine ⟨hfills', fun g _ hall t ht hdvd hadded => hall t ht hdvd hadded.1, fun hsame => ?_,
    fun hall => ?_⟩
  · refine hempty (List.eq_nil_iff_forall_not_mem.2 ?_)
    rintro ⟨t, v⟩ hmem
    -- the answer is stored already, and no gap has a stored timestamp
    obtain ⟨g, hg, cs, hcs, c, hc, hentry⟩ := mem_answered.1 (hsame hmem)
    have hstored := hfills.holds g hg cs hcs c hc
    have hinst : c.instant utcOnly = t := congrArg Prod.fst hentry
    obtain ⟨g', hg', hpoint⟩ := hagain.mem_points hmem
    rw [hinst, hreq.free g' hg' t hpoint] at hstored
    cases hstored
  · refine hempty ?_
    rw [hreq.eq_nil hall]
    rfl

/-- A backfill from one datetime of UTC to a later one.  Up to the last month that there is it
requests the missing minutes, in gaps without a stored timestamp, adds exactly what is answered and
returns how much that is; so does a second one, which adds nothing where the first one filled a
gap.  A window that reaches into the last month raises before anything is written. -/
theorem backfill_fills (fetchOhlcv : Provider) (hfetch : fetchOhlcv.Good) (files : Files)
    (hfiles : UtcFiles files) (start end_ : AwareDatetime) (hs : start.zone = .utc)
    (he : end_.zone = .utc) (hlt : start.wall < end_.wall) (window : ℤ)
    (now storeNow : AwareDatetime) :
    (monthStart 119999 < end_.startOfMinute.wall →
      backfillSymbol utcOnly fetchOhlcv window now storeNow files (some start) (some end_) = none) ∧
    (end_.startOfMinute.wall ≤ monthStart 119999 →
      ∃ gaps files' n,
        requests files start.startOfMinute end_.startOfMinute = some gaps ∧
        Requested files start.startOfMinute end_.startOfMinute gaps ∧
        backfillSymbol utcOnly fetchOhlcv window now storeNow files (some start) (some end_) =
          some (files', n) ∧
        UtcFiles files' ∧
        Fills fetchOhlcv files start.startOfMinute end_.startOfMinute gaps files' n ∧
        ∀ fetchAgain : Provider, fetchAgain.Good → ∃ gaps' files'' n',
          requests files' start.startOfMinute end_.startOfMinute = some gaps' ∧
          backfillSymbol utcOnly fetchAgain window now storeNow files' (some start) (some end_) =
            some (files'', n') ∧
          Again fetchOhlcv fetchAgain start.startOfMinute end_.startOfMinute gaps gaps' files'
            files'' n') := by
  refine ⟨fun hyear => ?_, fun hyear => ?_⟩
  · have hread : CandleStore.readMonths utcOnly files start.startOfMinute end_.startOfMinute
        (CandleStore.monthsLeft start.startOfMinute) start.startOfMinute.startOfMonth = none :=
      CandleStore.readMonths_eq_none (show start.startOfMinute.zone = end_.startOfMinute.zone from
        hs.trans he.symm) hyear _ rfl start.startOfMinute.startOfMonth_wall
    have hnone : requests files start.startOfMinute end_.startOfMinute = none := by
      rw [requests, CandleStore.readRange, hread]
      rfl
    have hback := backfillRange_eq fetchOhlcv files start end_
    rwa [hnone] at hback
  · obtain ⟨gaps, files', n, hgaps, hreq, -, hback, hfiles', hfills⟩ :=
      backfillRange_fills hfetch hfiles hs he hlt.le hyear
    refine ⟨gaps, files', n, hgaps, hreq, hback, hfiles', hfills, fun fetchAgain hagain => ?_⟩
    obtain ⟨gaps', files'', n', hgaps', hreq', hfold', hback', -, hfills'⟩ :=
      backfillRange_fills hagain hfiles' hs he hlt.le hyear
    exact ⟨gaps', files'', n', hgaps', hback', again_spec hagain hfills hreq' hfold' hfills'⟩

/-- A provider that has one candle, and raises if it is not asked for it. -/
def oneCandleProvider (timestamp : AwareDatetime) : Provider := fun start end_ =>
  if utcOnly.instant start ≤ utcOnly.instant timestamp ∧
      utcOnly.instant timestamp < utcOnly.instant end_ then
    some [CandleStore.flat timestamp 1]
  else none

theorem oneCandleProvider_good {timestamp : AwareDatetime} (hutc : timestamp.zone = .utc)
    (hwhole : 1000000 ∣ timestamp.wall) : (oneCandleProvider timestamp).Good := by
  intro start end_ cs h
  rw [oneCandleProvider] at h
  split at h
  · rename_i hin
    obtain rfl := Option.some.inj h
    refine ⟨fun c hc => ?_, List.nodup_singleton _⟩
    obtain rfl := List.mem_singleton.1 hc
    exact ⟨hutc, hwhole, hin.1, hin.2⟩
  · cases h

/-- Half past noon. -/
def afterNoon : AwareDatetime :=
  ⟨.utc, 1705321800000000, false, by decide +kernel, by decide +kernel⟩

/-- A quarter past noon. -/
def quarterPast : AwareDatetime :=
  ⟨.utc, 1705320900000000, false, by decide +kernel, by decide +kernel⟩

/-- The store has noon, and the provider a quarter past: one candle is added. -/
theorem backfill_fills_quarterPast :
    ∃ gaps files',
      requests MixedOhlcv.firstMinute CandleStore.utcNoon.startOfMinute afterNoon.startOfMinute =
        some gaps ∧
      gaps.map Gap.count = [29] ∧
      backfillSymbol utcOnly (oneCandleProvider quarterPast) 5 afterNoon afterNoon
        MixedOhlcv.firstMinute (some CandleStore.utcNoon) (some afterNoon) = some (files', 1) ∧
      Fills (oneCandleProvider quarterPast) MixedOhlcv.firstMinute CandleStore.utcNoon.startOfMinute
        afterNoon.startOfMinute gaps files' 1 := by
  obtain ⟨gaps, files', n, hgaps, -, hback, -, hfills, -⟩ :=
    (backfill_fills (oneCandleProvider quarterPast) (oneCandleProvider_good rfl (by decide))
      MixedOhlcv.firstMinute MixedOhlcv.utcFiles_firstMinute CandleStore.utcNoon afterNoon rfl rfl
      (by decide) 5 afterNoon afterNoon).2 (by decide +kernel)
  have hcounts : (requests MixedOhlcv.firstMinute CandleStore.utcNoon.startOfMinute
      afterNoon.startOfMinute).map (fun gaps => gaps.map Gap.count) = some [29] := by
    decide +kernel
  have hadded : (backfillSymbol utcOnly (oneCandleProvider quarterPast) 5 afterNoon afterNoon
      MixedOhlcv.firstMinute (some CandleStore.utcNoon) (some afterNoon)).map Prod.snd =
        some 1 := by
    decide +kernel
  rw [hgaps] at hcounts
  rw [hback] at hadded
  obtain rfl : n = 1 := Option.some.inj hadded
  exact ⟨gaps, files', hgaps, Option.some.inj hcounts, hback, hfills⟩

/-- On the last day that there is, the loop over the months asks for the year 10000. -/
theorem last_month_raises :
    UtcFiles Dict.empty ∧ (oneCandleProvider quarterPast).Good ∧
      backfillSymbol utcOnly (oneCandleProvider quarterPast) 5 afterNoon afterNoon Dict.empty
        (some GapValidator.lastDay) (some GapValidator.lastMinute) = none :=
  ⟨CandleStore.inv_empty, oneCandleProvider_good rfl (by decide), by decide +kernel⟩

end Backfill
