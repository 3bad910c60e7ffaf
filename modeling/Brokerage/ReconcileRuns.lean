/-
**The tracker between starts and ticks.**

The tracker holds the local positions, and the reasons for which some of them are not trusted.  A
start fills it from the listing of the venue; a tick compares it with a later listing and marks what
differs.  Nothing but the listing of a start makes a position trusted again, and no position is ever
dropped.

Main definitions:

* `InMemoryPositionTracker` — the tracker, with its operations;
* `PositionTracking.runBootstrap`, `PositionTracking.reconcile` — a start, and a tick that hands its
  actions to the tracker;
* `PositionTracking.lastListed`, `PositionTracking.Doubted` — what a history of starts, ticks and
  changes of levels says about an identifier.

Main results:

* `PositionTracking.trackerRun_spec` — a position is marked exactly if it was doubted after it was
  listed last;
* `PositionTracking.bootstrap_agrees` — after a start its own listing has nothing to add.
-/

import Brokerage.ReconcilePartition

set_option relaxedAutoImplicit false
set_option autoImplicit false

/-! ### The tracker -/

/-- What is compared of a position. -/
structure PositionTerms where
  symbol : String
  isLong : Bool
  size : ℚ
  deriving DecidableEq

def Position.terms (p : Position) : PositionTerms := ⟨p.symbol, p.isLong, p.size⟩

/-- The local positions under their identifiers, and why some are stale. -/
structure InMemoryPositionTracker where
  positions : Dict String Position
  stale : Dict String String
  keyed : ∀ id p, positions.get? id = some p → p.positionId = id

namespace InMemoryPositionTracker

theorem keyed_empty (id : String) (p : Position)
    (h : (Dict.empty : Dict String Position).get? id = some p) : p.positionId = id := by
  cases h

def empty : InMemoryPositionTracker := ⟨Dict.empty, Dict.empty, keyed_empty⟩

theorem keyed_upsert (t : InMemoryPositionTracker) (position : Position) (id : String)
    (p : Position) (h : (t.positions.set position.positionId position).get? id = some p) :
    p.positionId = id := by
  rw [Dict.get?_set] at h
  split_ifs at h with heq
  · exact (Option.some.inj h ▸ heq).symm
  · exact t.keyed id p h

/-- A position is there as the venue has it, and is trusted. -/
def upsert (t : InMemoryPositionTracker) (position : Position) : InMemoryPositionTracker :=
  ⟨t.positions.set position.positionId position, t.stale.erase position.positionId,
    keyed_upsert t position⟩

def getPositions (t : InMemoryPositionTracker) : List Position := t.positions.values

def markStale (t : InMemoryPositionTracker) (positionId reason : String) :
    InMemoryPositionTracker :=
  { t with stale := t.stale.set positionId reason }

/-- The levels that are given replace those of a position. -/
def withSltp (p : Position) (sl tp : Option ℚ) : Position :=
  { p with slPrice := sl.or p.slPrice, tpPrice := tp.or p.tpPrice }

/-- The positions with other levels for one of them, if it is there. -/
def sltpPositions (t : InMemoryPositionTracker) (positionId : String) (sl tp : Option ℚ) :
    Dict String Position :=
  match t.positions.get? positionId with
  | none => t.positions
  | some p => t.positions.set positionId (withSltp p sl tp)

theorem get?_sltpPositions (t : InMemoryPositionTracker) (positionId : String) (sl tp : Option ℚ)
    (id : String) : (t.sltpPositions positionId sl tp).get? id =
      if id = positionId then (t.positions.get? id).map fun p => withSltp p sl tp
      else t.positions.get? id := by
  rw [sltpPositions]
  by_cases heq : id = positionId
  · subst heq
    rw [if_pos rfl]
    cases h : t.positions.get? id with
    | none => exact h
    | some p => exact Dict.get?_set_self ..
  · rw [if_neg heq]
    cases t.positions.get? positionId with
    | none => rfl
    | some p => exact Dict.get?_set_of_ne _ _ heq

theorem keyed_updateSltp (t : InMemoryPositionTracker) (positionId : String) (sl tp : Option ℚ)
    (id : String) (p : Position) (h : (t.sltpPositions positionId sl tp).get? id = some p) :
    p.positionId = id := by
  rw [get?_sltpPositions] at h
  split_ifs at h with heq
  · obtain ⟨q, hq, rfl⟩ := Option.map_eq_some_iff.1 h
    exact t.keyed id q hq
  · exact t.keyed id p h

/-- The levels of a position are set again. -/
def updateSltp (t : InMemoryPositionTracker) (positionId : String) (sl tp : Option ℚ) :
    InMemoryPositionTracker :=
  ⟨t.sltpPositions positionId sl tp, t.stale, keyed_updateSltp t positionId sl tp⟩

def isStale (t : InMemoryPositionTracker) (positionId : String) : Bool :=
  t.stale.contains positionId

/-- What is known of an identifier. -/
def known (t : InMemoryPositionTracker) (positionId : String) : Option PositionTerms :=
  (t.positions.get? positionId).map Position.terms

end InMemoryPositionTracker

namespace PositionTracking

/-! ### Starts and ticks -/

/-- What a store of levels answers: the levels of some positions, or an exception. -/
abbrev SltpListing := Except CoreError (List (String × Option ℚ × Option ℚ))

/-- The positions that the venue does not list are marked. -/
def markMissing (t : InMemoryPositionTracker) (venueIds : List String) : InMemoryPositionTracker :=
  t.getPositions.foldl (fun t pos =>
    if pos.positionId ∈ venueIds then t else t.markStale pos.positionId "not_at_venue") t

/-- The levels of a store are put into the tracker. -/
def rehydrate (t : InMemoryPositionTracker) (levels : List (String × Option ℚ × Option ℚ)) :
    InMemoryPositionTracker :=
  levels.foldl (fun t level => t.updateSltp level.1 level.2.1 level.2.2) t

/-- A start: the tracker is filled from the venue, and then from a store of levels, if there is
one.  An exception of the venue leaves the tracker alone, one of the store comes after the rest. -/
def runBootstrap (listing : Except CoreError (List Position)) (t : InMemoryPositionTracker)
    (markMissingStale : Bool) (sltpStore : Option SltpListing) :
    Except CoreError ℕ × InMemoryPositionTracker :=
  match listing with
  | .error e => (.error e, t)
  | .ok positions =>
      let t := positions.foldl InMemoryPositionTracker.upsert t
      let t := if markMissingStale = true then
        markMissing t (positions.map Position.positionId) else t
      match sltpStore with
      | none => (.ok positions.length, t)
      | some (.error e) => (.error e, t)
      | some (.ok levels) => (.ok positions.length, rehydrate t levels)

/-- The sink: positions are marked in the tracker, and a resynchronisation is only reported. -/
def handle (t : InMemoryPositionTracker) (actions : List ReconcileAction) :
    InMemoryPositionTracker :=
  actions.foldl (fun t a =>
    match a with
    | .markStalePosition positionId reason _ => t.markStale positionId reason
    | .requestResync _ _ => t) t

/-- A tick over the positions of the tracker, with the tracker behind the sink. -/
def reconcile (venueName : Option String) (listing : Except CoreError (List Position))
    (t : InMemoryPositionTracker) : InMemoryPositionTracker :=
  handle t (reconcileTick listing t.getPositions venueName)

/-- What happens to a tracker. -/
inductive TrackerEvent
  | bootstrap (listing : Except CoreError (List Position)) (markMissingStale : Bool)
      (sltpStore : Option SltpListing)
  | tick (listing : Except CoreError (List Position))
  | updateSltp (positionId : String) (sl tp : Option ℚ)

/-- One event. -/
def TrackerEvent.apply (venueName : Option String) (t : InMemoryPositionTracker) :
    TrackerEvent → InMemoryPositionTracker
  | .bootstrap listing markMissingStale sltpStore =>
      (runBootstrap listing t markMissingStale sltpStore).2
  | .tick listing => reconcile venueName listing t
  | .updateSltp positionId sl tp => t.updateSltp positionId sl tp

/-- A tracker after some events. -/
def trackerRun (venueName : Option String) (events : List TrackerEvent) :
    InMemoryPositionTracker :=
  events.foldl (TrackerEvent.apply venueName) .empty

/-! ### What a history says -/

/-- What a listing says of an identifier. -/
def listedTerms (positions : List Position) (id : String) : Option PositionTerms :=
  (Dict.latest Position.positionId positions id).map Position.terms

/-- What a start says of an identifier. -/
def TrackerEvent.listed (id : String) : TrackerEvent → Option PositionTerms
  | .bootstrap (.ok positions) _ _ => listedTerms positions id
  | _ => none

/-- What the last start that listed an identifier said of it. -/
def lastListed (id : String) (events : List TrackerEvent) : Option PositionTerms :=
  events.foldl (fun known e => (e.listed id).or known) none

/-- An event speaks against a position: it lists it with other terms, or not at all. -/
def TrackerEvent.Doubts (id : String) (terms : PositionTerms) : TrackerEvent → Prop
  | .bootstrap (.ok positions) markMissingStale _ =>
      markMissingStale = true ∧ listedTerms positions id = none
  | .tick (.ok positions) => listedTerms positions id ≠ some terms
  | _ => False

/-- A position was spoken against, and has not been listed by a start since. -/
def Doubted (id : String) (events : List TrackerEvent) : Prop :=
  ∃ before e after, events = before ++ e :: after ∧
    (∃ terms, lastListed id before = some terms ∧ e.Doubts id terms) ∧
    ∀ e' ∈ after, e'.listed id = none

theorem lastListed_append (id : String) (events : List TrackerEvent) (e : TrackerEvent) :
    lastListed id (events ++ [e]) = (e.listed id).or (lastListed id events) := by
  rw [lastListed, List.foldl_append]
  rfl

/-- An event that speaks against a position does not list it. -/
theorem TrackerEvent.Doubts.listed {id : String} {terms : PositionTerms} {e : TrackerEvent}
    (h : e.Doubts id terms) : e.listed id = none := by
  cases e with
  | bootstrap listing markMissingStale sltpStore =>
      cases listing with
      | error e => rfl
      | ok positions => exact h.2
  | tick listing => rfl
  | updateSltp positionId sl tp => rfl

theorem doubted_append {id : String} {events : List TrackerEvent} {e : TrackerEvent} :
    Doubted id (events ++ [e]) ↔ e.listed id = none ∧
      (Doubted id events ∨ ∃ terms, lastListed id events = some terms ∧ e.Doubts id terms) := by
  constructor
  · rintro ⟨before, d, after, heq, hdoubts, hafter⟩
    rcases List.eq_nil_or_concat after with rfl | ⟨after, e', rfl⟩
    · obtain ⟨rfl, he⟩ := List.append_inj' heq rfl
      obtain rfl := (List.cons.inj he).1
      obtain ⟨terms, hterms, hd⟩ := hdoubts
      exact ⟨hd.listed, .inr ⟨terms, hterms, hd⟩⟩
    · have heq' : events ++ [e] = (before ++ d :: after) ++ [e'] := by
        rw [heq, List.append_assoc, List.cons_append, List.concat_eq_append]
      obtain ⟨rfl, he⟩ := List.append_inj' heq' rfl
      obtain rfl := (List.cons.inj he).1
      rw [List.concat_eq_append] at hafter
      exact ⟨hafter e (List.mem_append_right _ List.mem_cons_self), .inl ⟨before, d, after, rfl,
        hdoubts, fun e' hmem => hafter e' (List.mem_append_left _ hmem)⟩⟩
  · rintro ⟨hlisted, ⟨before, d, after, rfl, hdoubts, hafter⟩ | hdoubts⟩
    · refine ⟨before, d, after ++ [e], by rw [List.append_assoc, List.cons_append], hdoubts,
        fun e' hmem => ?_⟩
      rcases List.mem_append.1 hmem with hmem | hmem
      · exact hafter e' hmem
      · exact List.mem_singleton.1 hmem ▸ hlisted
    · exact ⟨events, e, [], rfl, hdoubts, fun e' hmem => absurd hmem List.not_mem_nil⟩

/-! ### What the operations do -/

variable {t : InMemoryPositionTracker} {id : String}

theorem isStale_markStale (positionId reason : String) :
    (t.markStale positionId reason).isStale id = true ↔
      t.isStale id = true ∨ id = positionId := by
  rw [InMemoryPositionTracker.isStale, InMemoryPositionTracker.markStale, Dict.contains,
    Dict.get?_set]
  by_cases heq : id = positionId
  · rw [if_pos heq]
    exact iff_of_true rfl (.inr heq)
  · rw [if_neg heq]
    exact (or_iff_left heq).symm

/-- Steps that do nothing but mark leave the positions, and mark what each of them marks. -/
theorem foldl_marks {α : Type} {step : InMemoryPositionTracker → α → InMemoryPositionTracker}
    {Marks : α → String → Prop} (hpositions : ∀ t a, (step t a).positions = t.positions)
    (hstale : ∀ t a id, (step t a).isStale id = true ↔ t.isStale id = true ∨ Marks a id)
    (l : List α) (t : InMemoryPositionTracker) :
    (l.foldl step t).positions = t.positions ∧
      ∀ id, (l.foldl step t).isStale id = true ↔ t.isStale id = true ∨ ∃ a ∈ l, Marks a id := by
  induction l generalizing t with
  | nil => exact ⟨rfl, fun id => by simp⟩
  | cons a l ih =>
      obtain ⟨hpos, hmark⟩ := ih (step t a)
      refine ⟨hpos.trans (hpositions t a), fun id => ?_⟩
      rw [List.foldl_cons, hmark, hstale, List.exists_mem_cons_iff, or_assoc]

theorem markMissing_spec (t : InMemoryPositionTracker) (venueIds : List String) :
    (markMissing t venueIds).positions = t.positions ∧
      ∀ id, (markMissing t venueIds).isStale id = true ↔
        t.isStale id = true ∨ ∃ p ∈ t.getPositions, p.positionId ∉ venueIds ∧ id = p.positionId := by
  refine foldl_marks (fun t p => ?_) (fun t p id => ?_) t.getPositions t
  · split_ifs
    · rfl
    · rfl
  · split_ifs with hmem
    · exact (or_iff_left fun h => h.1 hmem).symm
    · rw [isStale_markStale, and_iff_right hmem]

theorem handle_spec (t : InMemoryPositionTracker) (actions : List ReconcileAction) :
    (handle t actions).positions = t.positions ∧
      ∀ id, (handle t actions).isStale id = true ↔
        t.isStale id = true ∨ ∃ a ∈ actions, a.MarksStale id := by
  refine foldl_marks (fun t a => ?_) (fun t a id => ?_) actions t
  · cases a with
    | markStalePosition positionId reason fields => rfl
    | requestResync reason venueName => rfl
  · cases a with
    | markStalePosition positionId reason fields =>
        rw [isStale_markStale]
        refine or_congr_right ⟨fun h => ⟨reason, fields, h ▸ rfl⟩, ?_⟩
        rintro ⟨_, _, h⟩
        exact (ReconcileAction.markStalePosition.inj h).1.symm
    | requestResync reason venueName =>
        exact (or_iff_left (by rintro ⟨_, _, h⟩; cases h)).symm

/-- The positions of a listing replace those of the tracker, and are trusted. -/
theorem upserts_spec (positions : List Position) (t : InMemoryPositionTracker) :
    (∀ id, (positions.foldl InMemoryPositionTracker.upsert t).positions.get? id =
        (Dict.latest Position.positionId positions id).or (t.positions.get? id)) ∧
      ∀ id, (positions.foldl InMemoryPositionTracker.upsert t).isStale id = true ↔
        t.isStale id = true ∧ Dict.latest Position.positionId positions id = none := by
  induction positions generalizing t with
  | nil => exact ⟨fun id => rfl, fun id => (and_iff_left rfl).symm⟩
  | cons p positions ih =>
      obtain ⟨hget, hstale⟩ := ih (t.upsert p)
      have hcons : ∀ id, Dict.latest Position.positionId (p :: positions) id =
          (Dict.latest Position.positionId positions id).or
            (if p.positionId = id then some p else none) := fun id => by
        rw [← Dict.latest_singleton, ← Dict.latest_append, List.singleton_append]
      have hset : ∀ id, (t.upsert p).positions.get? id =
          if id = p.positionId then some p else t.positions.get? id :=
        fun id => Dict.get?_set _ _ _ _
      have herase : ∀ id, (t.upsert p).isStale id = true ↔
          t.isStale id = true ∧ ¬ p.positionId = id := fun id => by
        rw [InMemoryPositionTracker.isStale, InMemoryPositionTracker.upsert, Dict.contains,
          Dict.get?_erase]
        by_cases heq : id = p.positionId
        · rw [if_pos heq]
          exact iff_of_false (fun h => by cases h) fun h => h.2 heq.symm
        · rw [if_neg heq]
          exact (and_iff_left (Ne.symm heq)).symm
      constructor
      · intro id
        rw [List.foldl_cons, hget, hset, hcons, Option.or_assoc]
        by_cases heq : id = p.positionId
        · rw [if_pos heq, if_pos heq.symm]
          rfl
        · rw [if_neg heq, if_neg (Ne.symm heq)]
          rfl
      · intro id
        rw [List.foldl_cons, hstale, herase, hcons, Option.or_eq_none_iff, and_assoc]
        by_cases heq : p.positionId = id
        · rw [if_pos heq]
          simp [heq]
        · rw [if_neg heq]
          simp [heq]

/-- Levels are not compared, and change nothing else. -/
theorem rehydrate_spec (levels : List (String × Option ℚ × Option ℚ))
    (t : InMemoryPositionTracker) :
    (rehydrate t levels).known = t.known ∧ (rehydrate t levels).isStale = t.isStale := by
  induction levels generalizing t with
  | nil => exact ⟨rfl, rfl⟩
  | cons level levels ih =>
      obtain ⟨hknown, hstale⟩ := ih (t.updateSltp level.1 level.2.1 level.2.2)
      refine ⟨hknown.trans (funext fun id => ?_), hstale⟩
      rw [InMemoryPositionTracker.known, InMemoryPositionTracker.updateSltp,
        InMemoryPositionTracker.get?_sltpPositions]
      split_ifs
      · rw [Option.map_map]
        rfl
      · rfl

theorem get?_positionsById_eq_latest (positions : List Position) (id : String) :
    (positionsById positions).get? id = Dict.latest Position.positionId positions id := by
  rw [← Dict.get?_keyed, positionsById, Dict.keyed, Dict.setAll, List.foldl_map]

/-- The tracker's own positions are found under their identifiers. -/
theorem latest_getPositions (t : InMemoryPositionTracker) (id : String) :
    Dict.latest Position.positionId t.getPositions id = t.positions.get? id := by
  have hids : t.getPositions.map Position.positionId = t.positions.keys := by
    rw [InMemoryPositionTracker.getPositions, Dict.values, List.map_map, Dict.keys]
    exact List.map_congr_left fun e he => t.keyed e.1 e.2 (Dict.get?_eq_some_iff.2 he)
  have hpairwise : t.getPositions.Pairwise (Position.positionId · ≠ Position.positionId ·) :=
    List.pairwise_map.1 (hids ▸ t.positions.nodup_keys)
  refine Option.ext fun p => ?_
  rw [Dict.latest_eq_some_iff hpairwise, InMemoryPositionTracker.getPositions, Dict.mem_values_iff]
  constructor
  · rintro ⟨⟨id', hp⟩, rfl⟩
    rwa [t.keyed id' p hp]
  · exact fun hp => ⟨⟨id, hp⟩, t.keyed id p hp⟩

theorem mismatchFields_eq_nil_iff_terms {vp lp : Position} :
    mismatchFields vp lp = [] ↔ vp.terms = lp.terms := by
  rw [Reconciliation.mismatchFields_eq_nil_iff, Position.terms, Position.terms,
    PositionTerms.mk.injEq]
  constructor
  · intro h
    exact ⟨not_not.1 (h .symbol), not_not.1 (h .isLong), not_not.1 (h .size)⟩
  · rintro ⟨hsymbol, hlong, hsize⟩ f
    cases f with
    | symbol => exact not_not.2 hsymbol
    | isLong => exact not_not.2 hlong
    | size => exact not_not.2 hsize

/-- The actions of a tick, with or without differences. -/
theorem reconcileTick_ok (positions localPositions : List Position) (venueName : Option String) :
    reconcileTick (.ok positions) localPositions venueName =
      buildActions (computeReconcileResult positions localPositions) venueName := by
  rw [reconcileTick, runOneTick]
  dsimp only
  split_ifs with hdiffs
  · rfl
  · refine (Reconciliation.buildActions_eq_nil_iff.2 ?_).symm
    simpa [ReconcileResult.hasDiffs, and_assoc] using hdiffs

/-- What the actions of a tick mark. -/
theorem marksStale_tick_iff (venueName : Option String) (positions : List Position)
    (t : InMemoryPositionTracker) (id : String) :
    (∃ a ∈ reconcileTick (.ok positions) t.getPositions venueName, a.MarksStale id) ↔
      ∃ terms, t.known id = some terms ∧ listedTerms positions id ≠ some terms := by
  rw [reconcileTick_ok, marked_stale_iff, get?_positionsById_eq_latest, latest_getPositions,
    get?_positionsById_eq_latest, InMemoryPositionTracker.known, listedTerms]
  constructor
  · rintro ⟨lp, hlp, hdiff⟩
    refine ⟨lp.terms, congrArg (Option.map Position.terms) hlp, fun hsame => ?_⟩
    obtain ⟨vp, hvp, hterms⟩ := Option.map_eq_some_iff.1 hsame
    exact hdiff vp hvp (mismatchFields_eq_nil_iff_terms.2 hterms)
  · rintro ⟨terms, hknown, hdiff⟩
    obtain ⟨lp, hlp, rfl⟩ := Option.map_eq_some_iff.1 hknown
    refine ⟨lp, hlp, fun vp hvp hsame => hdiff ?_⟩
    rw [hvp, Option.map_some, mismatchFields_eq_nil_iff_terms.1 hsame]

/-- A tick marks what the listing has with other terms, or not at all. -/
theorem reconcile_spec (venueName : Option String) (positions : List Position)
    (t : InMemoryPositionTracker) :
    (reconcile venueName (.ok positions) t).positions = t.positions ∧
      ∀ id, (reconcile venueName (.ok positions) t).isStale id = true ↔ t.isStale id = true ∨
        ∃ terms, t.known id = some terms ∧ listedTerms positions id ≠ some terms := by
  obtain ⟨hpositions, hstale⟩ :=
    handle_spec t (reconcileTick (.ok positions) t.getPositions venueName)
  exact ⟨hpositions, fun id =>
    (hstale id).trans (or_congr_right (marksStale_tick_iff venueName positions t id))⟩

/-- What a start has done before the levels are set. -/
theorem filled_spec (positions : List Position) (t : InMemoryPositionTracker)
    (markMissingStale : Bool) :
    let filled := positions.foldl InMemoryPositionTracker.upsert t
    let marked := if markMissingStale = true then
      markMissing filled (positions.map Position.positionId) else filled
    ∀ id, marked.known id = (listedTerms positions id).or (t.known id) ∧
      (marked.isStale id = true ↔ listedTerms positions id = none ∧
        (t.isStale id = true ∨ markMissingStale = true ∧ (t.known id).isSome = true)) := by
  intro filled marked id
  obtain ⟨hget, hstale⟩ := upserts_spec positions t
  have hknown : filled.known id = (listedTerms positions id).or (t.known id) := by
    rw [InMemoryPositionTracker.known, hget, Option.map_or]
    rfl
  have hlisted : listedTerms positions id = none ↔
      Dict.latest Position.positionId positions id = none := Option.map_eq_none_iff
  cases markMissingStale with
  | false =>
      refine ⟨hknown, (hstale id).trans ?_⟩
      rw [hlisted, and_comm]
      simp
  | true =>
      obtain ⟨hpositions, hmark⟩ := markMissing_spec filled (positions.map Position.positionId)
      have hmissing : (∃ p ∈ filled.getPositions,
          p.positionId ∉ positions.map Position.positionId ∧ id = p.positionId) ↔
            listedTerms positions id = none ∧ (t.known id).isSome = true := by
        have hids : Dict.latest Position.positionId positions id = none ↔
            id ∉ positions.map Position.positionId := by
          rw [Dict.latest_eq_none_iff, List.mem_map]
          exact ⟨fun h hmem => hmem.elim fun p hp => h p hp.1 hp.2,
            fun h p hp hid => h ⟨p, hp, hid⟩⟩
        rw [hlisted, InMemoryPositionTracker.known, Option.isSome_map, Option.isSome_iff_exists]
        constructor
        · rintro ⟨p, hp, hnot, rfl⟩
          obtain ⟨id', hp⟩ := Dict.mem_values_iff.1 hp
          rw [← filled.keyed id' p hp, hget, hids.2 hnot, Option.none_or] at hp
          exact ⟨hids.2 hnot, p, hp⟩
        · rintro ⟨hnone, p, hp⟩
          refine ⟨p, Dict.mem_values_iff.2 ⟨id, ?_⟩, ?_, (t.keyed id p hp).symm⟩
          · rw [hget, hnone, Option.none_or, hp]
          · rw [t.keyed id p hp]
            exact hids.1 hnone
      refine ⟨(congrArg (fun d => (d.get? id).map Position.terms) hpositions).trans hknown, ?_⟩
      rw [show marked.isStale id = true ↔ _ from hmark id, hstale, hmissing, hlisted]
      tauto

/-- A start makes the listed positions known and trusted; of the others it may mark all. -/
theorem runBootstrap_spec (positions : List Position) (t : InMemoryPositionTracker)
    (markMissingStale : Bool) (sltpStore : Option SltpListing) (id : String) :
    (runBootstrap (.ok positions) t markMissingStale sltpStore).2.known id =
        (listedTerms positions id).or (t.known id) ∧
      ((runBootstrap (.ok positions) t markMissingStale sltpStore).2.isStale id = true ↔
        listedTerms positions id = none ∧
          (t.isStale id = true ∨ markMissingStale = true ∧ (t.known id).isSome = true)) := by
  have hfilled := filled_spec positions t markMissingStale id
  rcases sltpStore with - | - | levels
  · exact hfilled
  · exact hfilled
  · rw [runBootstrap]
    dsimp only
    rw [(rehydrate_spec levels _).1, (rehydrate_spec levels _).2]
    exact hfilled

/-! ### Runs -/

/-- What an event does to an identifier. -/
theorem apply_spec (venueName : Option String) (e : TrackerEvent) (t : InMemoryPositionTracker)
    (id : String) :
    (e.apply venueName t).known id = (e.listed id).or (t.known id) ∧
      ((e.apply venueName t).isStale id = true ↔ e.listed id = none ∧
        (t.isStale id = true ∨ ∃ terms, t.known id = some terms ∧ e.Doubts id terms)) := by
  cases e with
  | bootstrap listing markMissingStale sltpStore =>
      cases listing with
      | error e =>
          refine ⟨rfl, ?_⟩
          simp [TrackerEvent.apply, runBootstrap, TrackerEvent.listed, TrackerEvent.Doubts]
      | ok positions =>
          obtain ⟨hknown, hstale⟩ := runBootstrap_spec positions t markMissingStale sltpStore id
          refine ⟨hknown, hstale.trans (and_congr_right fun hnone => or_congr_right ?_)⟩
          rw [Option.isSome_iff_exists]
          constructor
          · rintro ⟨hmark, terms, hterms⟩
            exact ⟨terms, hterms, hmark, hnone⟩
          · rintro ⟨terms, hterms, hmark, -⟩
            exact ⟨hmark, terms, hterms⟩
  | tick listing =>
      cases listing with
      | error e =>
          refine ⟨rfl, ?_⟩
          simp [TrackerEvent.apply, reconcile, handle, TrackerEvent.listed, TrackerEvent.Doubts]
      | ok positions =>
          obtain ⟨hpositions, hstale⟩ := reconcile_spec venueName positions t
          refine ⟨congrArg (fun d => (d.get? id).map Position.terms) hpositions, ?_⟩
          exact (hstale id).trans (and_iff_right rfl).symm
  | updateSltp positionId sl tp =>
      obtain ⟨hknown, hstale⟩ := rehydrate_spec [(positionId, sl, tp)] t
      refine ⟨congrFun hknown id, (Bool.eq_iff_iff.1 (congrFun hstale id)).trans ?_⟩
      simp [TrackerEvent.listed, TrackerEvent.Doubts]

/-- The tracker knows every identifier as it was listed last, and marks it if it was doubted. -/
theorem trackerRun_spec (venueName : Option String) (events : List TrackerEvent) (id : String) :
    (trackerRun venueName events).known id = lastListed id events ∧
      ((trackerRun venueName events).isStale id = true ↔ Doubted id events) := by
  induction events using List.reverseRecOn with
  | nil =>
      refine ⟨rfl, iff_of_false (fun h => by cases h) ?_⟩
      rintro ⟨before, e, after, h, -⟩
      exact absurd (congrArg List.length h) (by simp)
  | append_singleton events e ih =>
      have hstep := apply_spec venueName e (trackerRun venueName events) id
      have happend : trackerRun venueName (events ++ [e]) =
          e.apply venueName (trackerRun venueName events) := by
        rw [trackerRun, List.foldl_append]
        rfl
      rw [happend, lastListed_append, doubted_append, hstep.1, hstep.2, ih.1, ih.2]
      exact ⟨rfl, Iff.rfl⟩

/-! ### A start and its own listing -/

/-- A listing that a tracker agrees with asks for nothing to be fetched again. -/
theorem resync_not_mem {positions : List Position} (venueName : Option String)
    (h : ∀ id, (listedTerms positions id).isSome = true → t.known id = listedTerms positions id)
    (reason : String) (name : Option String) :
    .requestResync reason name ∉ reconcileTick (.ok positions) t.getPositions venueName := by
  -- what the tracker has for a position of the listing
  have hlocal : ∀ entry ∈ (positionsById positions).entries, ∃ lp,
      (positionsById t.getPositions).get? entry.1 = some lp ∧ lp.terms = entry.2.terms := by
    intro entry hentry
    have hlatest := Dict.get?_eq_some_iff.2 hentry
    rw [get?_positionsById_eq_latest] at hlatest
    have hlisted : listedTerms positions entry.1 = some entry.2.terms :=
      congrArg (Option.map Position.terms) hlatest
    rw [get?_positionsById_eq_latest, latest_getPositions]
    have hknown := h entry.1 (hlisted ▸ rfl)
    rw [hlisted] at hknown
    exact Option.map_eq_some_iff.1 hknown
  rw [reconcileTick_ok, Reconciliation.mem_resync_iff]
  rintro ⟨-, ⟨-, hmissing⟩ | ⟨-, hmismatch⟩⟩
  · refine hmissing (List.filterMap_eq_nil_iff.2 fun entry hentry => ?_)
    obtain ⟨lp, hlp, -⟩ := hlocal entry hentry
    rw [Dict.contains, hlp]
    rfl
  · refine hmismatch (List.filterMap_eq_nil_iff.2 fun entry hentry => ?_)
    obtain ⟨lp, hlp, hterms⟩ := hlocal entry hentry
    rw [hlp]
    exact if_pos (mismatchFields_eq_nil_iff_terms.2 hterms.symm)

/-- Ticks over the listing of the last start. -/
theorem ticks_after_bootstrap (venueName : Option String) (positions : List Position)
    (h : ∀ id, (listedTerms positions id).isSome = true → t.known id = listedTerms positions id)
    (hstale : ∀ id, listedTerms positions id = none → (t.known id).isSome = true →
      t.isStale id = true) (n : ℕ) :
    let later := (List.replicate n (TrackerEvent.tick (.ok positions))).foldl
      (TrackerEvent.apply venueName) t
    later.positions = t.positions ∧ ∀ id, later.isStale id = t.isStale id := by
  induction n generalizing t with
  | zero => exact ⟨rfl, fun id => rfl⟩
  | succ n ih =>
      obtain ⟨hpositions, hmark⟩ := reconcile_spec venueName positions t
      have hknown : (reconcile venueName (.ok positions) t).known = t.known :=
        funext fun id => congrArg (fun d => (d.get? id).map Position.terms) hpositions
      have hsame : ∀ id, (reconcile venueName (.ok positions) t).isStale id = t.isStale id := by
        intro id
        refine Bool.eq_iff_iff.2 ((hmark id).trans (or_iff_left_of_imp ?_))
        rintro ⟨terms, hterms, hdiff⟩
        refine hstale id ?_ (hterms ▸ rfl)
        refine Option.not_isSome_iff_eq_none.1 fun hsome => hdiff ?_
        rw [← h id hsome, hterms]
      have hrest := ih (t := reconcile venueName (.ok positions) t) (hknown ▸ h)
        (fun id hnone hsome => (hsame id).trans (hstale id hnone (hknown ▸ hsome)))
      exact ⟨hrest.1.trans hpositions, fun id => (hrest.2 id).trans (hsame id)⟩

/-- Whatever happened before a start, ticks over the listing of the start have nothing to add: they
request no resynchronisation, and if the start has marked what is missing, then however many they
are, they leave the positions and the marks. -/
theorem bootstrap_agrees (venueName : Option String) (events : List TrackerEvent)
    (positions : List Position) (markMissingStale : Bool) (sltpStore : Option SltpListing) :
    let started := trackerRun venueName
      (events ++ [.bootstrap (.ok positions) markMissingStale sltpStore])
    (∀ reason name, .requestResync reason name ∉
        reconcileTick (.ok positions) started.getPositions venueName) ∧
      (∀ id, (∃ a ∈ reconcileTick (.ok positions) started.getPositions venueName,
          a.MarksStale id) ↔ listedTerms positions id = none ∧ started.known id ≠ none) ∧
      (markMissingStale = true → ∀ n,
        let later := trackerRun venueName
          (events ++ [.bootstrap (.ok positions) markMissingStale sltpStore] ++
            List.replicate n (.tick (.ok positions)))
        later.positions = started.positions ∧ ∀ id, later.isStale id = started.isStale id) := by
  intro started
  have hspec := fun id => runBootstrap_spec positions (trackerRun venueName events)
    markMissingStale sltpStore id
  have hstarted : started = (runBootstrap (.ok positions) (trackerRun venueName events)
      markMissingStale sltpStore).2 := by
    rw [show started = trackerRun venueName _ from rfl, trackerRun, List.foldl_append]
    rfl
  rw [← hstarted] at hspec
  have hagree : ∀ id, (listedTerms positions id).isSome = true →
      started.known id = listedTerms positions id := by
    intro id hsome
    rw [(hspec id).1, Option.or_of_isSome hsome]
  refine ⟨resync_not_mem venueName hagree, fun id => ?_, fun hmark n => ?_⟩
  · rw [marksStale_tick_iff]
    constructor
    · rintro ⟨terms, hterms, hdiff⟩
      refine ⟨Option.not_isSome_iff_eq_none.1 fun hsome => hdiff ?_, fun h => ?_⟩
      · rw [← hagree id hsome, hterms]
      · rw [hterms] at h
        cases h
    · rintro ⟨hnone, hknown⟩
      obtain ⟨terms, hterms⟩ := Option.ne_none_iff_exists'.1 hknown
      exact ⟨terms, hterms, fun h => by rw [hnone] at h; cases h⟩
  · have hticks := ticks_after_bootstrap venueName positions hagree (fun id hnone hsome => ?_) n
    · intro later
      have hlater : later = (List.replicate n (TrackerEvent.tick (.ok positions))).foldl
          (TrackerEvent.apply venueName) started := List.foldl_append
      rw [hlater]
      exact hticks
    · rw [(hspec id).1, hnone, Option.none_or] at hsome
      exact (hspec id).2.2 ⟨hnone, .inr ⟨hmark, hsome⟩⟩

end PositionTracking
