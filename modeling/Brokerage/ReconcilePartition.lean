/-
**A comparison puts every position into one class.**

The comparison of the positions of the venue with the local ones runs through two dictionaries.  Where
the identifiers on each side are distinct, it puts each of them into one class: missing, extra,
different or the same.  The actions cover these classes: each extra or different identifier is marked
once, and a resynchronisation is asked for just if there is something missing or different.

Main definitions:

* `PositionClass`, `Reconciliation.InClass` — the classes, by the two lists alone;
* `MismatchField.Differs` — when two positions differ in a field;
* `ReconcileResult.placed` — the identifiers that a result puts into a class;
* `Reconciliation.Partition`, `Reconciliation.Cover` — what a result and its actions are to the two lists.

Main results:

* `Reconciliation.entries_positionsById` — positions by identifier, where the identifiers are distinct;
* `Reconciliation.count_placed` — how often an identifier is put into a class;
* `Reconciliation.reconcile_partition` — the result, in whatever order the positions are listed, and
  the actions.
-/

import Brokerage.Reconcile

set_option relaxedAutoImplicit false
set_option autoImplicit false

/-- The identifiers of positions. -/
abbrev identifiers (positions : List Position) : List String := positions.map Position.positionId

/-! ### Classes -/

/-- Two positions differ in a field. -/
def MismatchField.Differs (vp lp : Position) : MismatchField → Prop
  | .symbol => vp.symbol ≠ lp.symbol
  | .isLong => vp.isLong ≠ lp.isLong
  | .size => vp.size ≠ lp.size

/-- What an identifier can be to two lists of positions. -/
inductive PositionClass
  | missingLocally
  | extraLocally
  | mismatch
  | same
  deriving DecidableEq

/-- The identifiers that a result puts into a class. -/
def ReconcileResult.placed (r : ReconcileResult) : PositionClass → List String
  | .missingLocally => identifiers r.missingLocally
  | .extraLocally => identifiers r.extraLocally
  | .mismatch => r.mismatch.map PositionMismatch.positionId
  | .same => []

/-- The action marks a position stale. -/
def ReconcileAction.marks (id : String) : ReconcileAction → Bool
  | .markStalePosition positionId _ _ => positionId = id
  | .requestResync _ _ => false

namespace Reconciliation

/-- The class of an identifier. -/
def InClass (venuePositions localPositions : List Position) (id : String) : PositionClass → Prop
  | .missingLocally => id ∈ identifiers venuePositions ∧ id ∉ identifiers localPositions
  | .extraLocally => id ∉ identifiers venuePositions ∧ id ∈ identifiers localPositions
  | .mismatch => ∃ vp ∈ venuePositions, ∃ lp ∈ localPositions, vp.positionId = id ∧
      lp.positionId = id ∧ ∃ f : MismatchField, f.Differs vp lp
  | .same => ∃ vp ∈ venuePositions, ∃ lp ∈ localPositions, vp.positionId = id ∧
      lp.positionId = id ∧ ∀ f : MismatchField, ¬ f.Differs vp lp

/-- What a result is to the lists that were compared. -/
structure Partition (venuePositions localPositions : List Position) (r : ReconcileResult) : Prop where
  oneClass : ∀ id ∈ identifiers venuePositions ++ identifiers localPositions,
    ∃! c, InClass venuePositions localPositions id c
  once : ∀ id c, c ≠ .same → InClass venuePositions localPositions id c → (r.placed c).count id = 1
  nowhereElse : ∀ id c, ¬ InClass venuePositions localPositions id c → id ∉ r.placed c
  missing : ∀ p ∈ r.missingLocally, p ∈ venuePositions
  extra : ∀ p ∈ r.extraLocally, p ∈ localPositions
  mismatch : ∀ m ∈ r.mismatch, m.venuePosition ∈ venuePositions ∧ m.localPosition ∈ localPositions ∧
    m.venuePosition.positionId = m.positionId ∧ m.localPosition.positionId = m.positionId ∧
    m.fieldsDiff.Nodup ∧ ∀ f, f ∈ m.fieldsDiff ↔ f.Differs m.venuePosition m.localPosition

/-- What actions are to the lists that were compared. -/
structure Cover (venuePositions localPositions : List Position) (venueName : Option String)
    (actions : List ReconcileAction) : Prop where
  marksOnce : ∀ id, InClass venuePositions localPositions id .extraLocally ∨
    InClass venuePositions localPositions id .mismatch → actions.countP (·.marks id) = 1
  marksOnly : ∀ id, ∀ a ∈ actions, a.marks id = true →
    InClass venuePositions localPositions id .extraLocally ∨
      InClass venuePositions localPositions id .mismatch
  resyncMissing : ∀ name, .requestResync "missing_locally" name ∈ actions ↔
    name = venueName ∧ ∃ id, InClass venuePositions localPositions id .missingLocally
  resyncMismatch : ∀ name, .requestResync "mismatch" name ∈ actions ↔
    name = venueName ∧ ∃ id, InClass venuePositions localPositions id .mismatch
  nil : actions = [] ↔ ∀ id ∈ identifiers venuePositions ++ identifiers localPositions,
    InClass venuePositions localPositions id .same

/-! ### Positions by identifier -/

variable {positions venuePositions localPositions : List Position} {id : String}

/-- With distinct identifiers, every position is kept, in its place. -/
theorem entries_positionsById (h : (identifiers positions).Nodup) :
    (positionsById positions).entries = positions.map fun p => (p.positionId, p) := by
  have key : ∀ (l : List Position) (d : Dict String Position), (d.keys ++ identifiers l).Nodup →
      (l.foldl (fun d p => d.set p.positionId p) d).entries =
        d.entries ++ l.map fun p => (p.positionId, p) := by
    intro l
    induction l with
    | nil => simp
    | cons q l ih =>
        intro d hd
        have hkeys : (d.keys ++ [q.positionId] ++ identifiers l).Nodup := by simpa using hd
        have hnot : q.positionId ∉ d.keys := by
          have hdisj := List.disjoint_of_nodup_append (List.Nodup.of_append_left hkeys)
          exact fun hmem => hdisj hmem List.mem_cons_self
        have hset : (d.set q.positionId q).keys = d.keys ++ [q.positionId] := by
          rw [Dict.keys_set, if_neg hnot]
        rw [List.foldl_cons, ih _ (by rwa [hset]), Dict.entries_set_of_not_mem _ hnot]
        simp
  exact (key positions Dict.empty (by simpa using h)).trans (List.nil_append _)

theorem get?_positionsById_iff (h : (identifiers positions).Nodup) {p : Position} :
    (positionsById positions).get? id = some p ↔ p ∈ positions ∧ p.positionId = id := by
  rw [Dict.get?_eq_some_iff, entries_positionsById h, List.mem_map]
  constructor
  · rintro ⟨q, hq, he⟩
    obtain ⟨rfl, rfl⟩ := Prod.mk.inj he
    exact ⟨hq, rfl⟩
  · rintro ⟨hp, rfl⟩
    exact ⟨p, hp, rfl⟩

theorem contains_positionsById_iff (h : (identifiers positions).Nodup) :
    (positionsById positions).contains id = true ↔ id ∈ identifiers positions := by
  rw [← Dict.mem_keys_iff_contains, Dict.keys, entries_positionsById h, List.map_map]
  rfl

/-! ### The fields that are listed -/

theorem mem_mismatchFields {vp lp : Position} {f : MismatchField} :
    f ∈ mismatchFields vp lp ↔ f.Differs vp lp := by
  cases f <;> simp only [mismatchFields, MismatchField.Differs] <;> split_ifs <;> simp_all

theorem nodup_mismatchFields (vp lp : Position) : (mismatchFields vp lp).Nodup := by
  unfold mismatchFields
  split_ifs <;> decide

theorem mismatchFields_eq_nil_iff {vp lp : Position} :
    mismatchFields vp lp = [] ↔ ∀ f : MismatchField, ¬ f.Differs vp lp := by
  rw [List.eq_nil_iff_forall_not_mem]
  simp only [mem_mismatchFields]

/-! ### The lists of a result -/

/-- What is found for a position of the venue. -/
def mismatchWith (localById : Dict String Position) (vp : Position) : Option PositionMismatch :=
  match localById.get? vp.positionId with
  | none => none
  | some lp =>
      if mismatchFields vp lp = [] then none
      else some ⟨vp.positionId, vp, lp, mismatchFields vp lp⟩

theorem mismatchWith_eq_some_iff {localById : Dict String Position} {vp : Position}
    {m : PositionMismatch} :
    mismatchWith localById vp = some m ↔ ∃ lp, localById.get? vp.positionId = some lp ∧
      mismatchFields vp lp ≠ [] ∧ m = ⟨vp.positionId, vp, lp, mismatchFields vp lp⟩ := by
  rw [mismatchWith]
  cases localById.get? vp.positionId with
  | none => simp
  | some lp =>
      by_cases hfields : mismatchFields vp lp = [] <;> simp [hfields, eq_comm]

/-- With distinct identifiers the result is read off the two lists. -/
theorem computeReconcileResult_eq (hv : (identifiers venuePositions).Nodup)
    (hl : (identifiers localPositions).Nodup) :
    computeReconcileResult venuePositions localPositions =
      { missingLocally := venuePositions.filter (·.positionId ∉ identifiers localPositions)
        extraLocally := localPositions.filter (·.positionId ∉ identifiers venuePositions)
        mismatch := venuePositions.filterMap (mismatchWith (positionsById localPositions)) } := by
  have hskip : ∀ l l' : List Position, (identifiers l').Nodup →
      (l.filterMap fun p => if (positionsById l').contains p.positionId then none else some p) =
        l.filter (·.positionId ∉ identifiers l') := by
    intro l l' hl'
    rw [← List.filterMap_eq_filter]
    refine List.filterMap_congr fun p _ => ?_
    simp only [contains_positionsById_iff hl', Option.guard_apply, decide_not, Bool.not_eq_true',
      decide_eq_false_iff_not]
    split_ifs <;> rfl
  rw [computeReconcileResult]
  simp only [entries_positionsById hv, entries_positionsById hl, List.filterMap_map]
  congr 1
  · exact hskip venuePositions localPositions hl
  · exact hskip localPositions venuePositions hv

/-- The identifiers that are put into a class are those of the class. -/
theorem mem_placed_iff (hv : (identifiers venuePositions).Nodup)
    (hl : (identifiers localPositions).Nodup) (c : PositionClass) :
    id ∈ (computeReconcileResult venuePositions localPositions).placed c ↔
      c ≠ .same ∧ InClass venuePositions localPositions id c := by
  rw [computeReconcileResult_eq hv hl]
  have hfilter : ∀ l l' : List Position,
      id ∈ identifiers (l.filter (·.positionId ∉ identifiers l')) ↔
        id ∈ identifiers l ∧ id ∉ identifiers l' := by
    intro l l'
    constructor
    · intro h
      obtain ⟨p, hp, rfl⟩ := List.mem_map.1 h
      obtain ⟨hmem, hnot⟩ := List.mem_filter.1 hp
      exact ⟨List.mem_map_of_mem hmem, of_decide_eq_true hnot⟩
    · rintro ⟨h, hnot⟩
      obtain ⟨p, hp, rfl⟩ := List.mem_map.1 h
      exact List.mem_map_of_mem (List.mem_filter.2 ⟨hp, decide_eq_true hnot⟩)
  cases c with
  | missingLocally => exact (hfilter _ _).trans (by simp [InClass])
  | extraLocally => exact (hfilter _ _).trans (by simp [InClass, and_comm])
  | mismatch =>
      simp only [ReconcileResult.placed, List.mem_map, List.mem_filterMap, InClass,
        mismatchWith_eq_some_iff, get?_positionsById_iff hl, ne_eq, mismatchFields_eq_nil_iff, not_forall,
        not_not, reduceCtorEq, not_false_eq_true, true_and]
      constructor
      · rintro ⟨m, ⟨vp, hvp, lp, ⟨hlp, hid⟩, hdiff, rfl⟩, rfl⟩
        exact ⟨vp, hvp, lp, hlp, rfl, hid, hdiff⟩
      · rintro ⟨vp, hvp, lp, hlp, rfl, hid, hdiff⟩
        exact ⟨_, ⟨vp, hvp, lp, ⟨hlp, hid⟩, hdiff, rfl⟩, rfl⟩
  | same => simp [ReconcileResult.placed]

/-- No identifier is put into a class twice. -/
theorem nodup_placed (hv : (identifiers venuePositions).Nodup)
    (hl : (identifiers localPositions).Nodup) (c : PositionClass) :
    ((computeReconcileResult venuePositions localPositions).placed c).Nodup := by
  rw [computeReconcileResult_eq hv hl]
  cases c with
  | missingLocally => exact hv.sublist (List.filter_sublist.map _)
  | extraLocally => exact hl.sublist (List.filter_sublist.map _)
  | mismatch =>
      refine List.pairwise_map.2 (List.pairwise_filterMap.2 ?_)
      refine (List.pairwise_map.1 hv).imp ?_
      intro vp vp' hne m hm m' hm'
      obtain ⟨-, -, -, rfl⟩ := mismatchWith_eq_some_iff.1 hm
      obtain ⟨-, -, -, rfl⟩ := mismatchWith_eq_some_iff.1 hm'
      exact hne
  | same => exact List.nodup_nil

/-- How often an identifier is put into a class. -/
theorem count_placed (hv : (identifiers venuePositions).Nodup)
    (hl : (identifiers localPositions).Nodup) {c : PositionClass} (hc : c ≠ .same)
    (h : InClass venuePositions localPositions id c) :
    ((computeReconcileResult venuePositions localPositions).placed c).count id = 1 :=
  List.count_eq_one_of_mem (nodup_placed hv hl c) ((mem_placed_iff hv hl c).2 ⟨hc, h⟩)

/-! ### One class -/

/-- A class says on which sides an identifier is. -/
theorem InClass.mem_iff {c : PositionClass} (h : InClass venuePositions localPositions id c) :
    (id ∈ identifiers venuePositions ↔ c ≠ .extraLocally) ∧
      (id ∈ identifiers localPositions ↔ c ≠ .missingLocally) := by
  cases c with
  | missingLocally => exact ⟨by simp [h.1], by simp [h.2]⟩
  | extraLocally => exact ⟨by simp [h.1], by simp [h.2]⟩
  | mismatch =>
      obtain ⟨vp, hvp, lp, hlp, rfl, hid, -⟩ := h
      exact ⟨by simp [List.mem_map_of_mem hvp], by simp [← hid, List.mem_map_of_mem hlp]⟩
  | same =>
      obtain ⟨vp, hvp, lp, hlp, rfl, hid, -⟩ := h
      exact ⟨by simp [List.mem_map_of_mem hvp], by simp [← hid, List.mem_map_of_mem hlp]⟩

/-- An identifier does not stand for different positions and for the same ones. -/
theorem not_mismatch_of_same (hv : (identifiers venuePositions).Nodup)
    (hl : (identifiers localPositions).Nodup) (h : InClass venuePositions localPositions id .same) :
    ¬ InClass venuePositions localPositions id .mismatch := by
  rintro ⟨vp', hvp', lp', hlp', hvid', hlid', f, hf⟩
  obtain ⟨vp, hvp, lp, hlp, hvid, hlid, hsame⟩ := h
  obtain rfl := List.inj_on_of_nodup_map hv hvp hvp' (hvid.trans hvid'.symm)
  obtain rfl := List.inj_on_of_nodup_map hl hlp hlp' (hlid.trans hlid'.symm)
  exact hsame f hf

theorem InClass.unique (hv : (identifiers venuePositions).Nodup)
    (hl : (identifiers localPositions).Nodup) {c c' : PositionClass}
    (h : InClass venuePositions localPositions id c)
    (h' : InClass venuePositions localPositions id c') : c' = c := by
  obtain ⟨hvenue, hlocal⟩ := h.mem_iff
  obtain ⟨hvenue', hlocal'⟩ := h'.mem_iff
  rw [hvenue] at hvenue'
  rw [hlocal] at hlocal'
  cases c <;> cases c' <;> simp at hvenue' hlocal' ⊢
  · exact not_mismatch_of_same hv hl h' h
  · exact not_mismatch_of_same hv hl h h'

/-- An identifier that is on some side has a class. -/
theorem exists_inClass (h : id ∈ identifiers venuePositions ++ identifiers localPositions) :
    ∃ c, InClass venuePositions localPositions id c := by
  by_cases hvenue : id ∈ identifiers venuePositions
  · by_cases hlocal : id ∈ identifiers localPositions
    · obtain ⟨vp, hvp, rfl⟩ := List.mem_map.1 hvenue
      obtain ⟨lp, hlp, hid⟩ := List.mem_map.1 hlocal
      by_cases hdiff : ∃ f : MismatchField, f.Differs vp lp
      · exact ⟨.mismatch, vp, hvp, lp, hlp, rfl, hid, hdiff⟩
      · exact ⟨.same, vp, hvp, lp, hlp, rfl, hid, not_exists.1 hdiff⟩
    · exact ⟨.missingLocally, hvenue, hlocal⟩
  · exact ⟨.extraLocally, hvenue, (List.mem_append.1 h).resolve_left hvenue⟩

/-- Every identifier is put into the one class it has. -/
theorem partition_computeReconcileResult (hv : (identifiers venuePositions).Nodup)
    (hl : (identifiers localPositions).Nodup) :
    Partition venuePositions localPositions
      (computeReconcileResult venuePositions localPositions) where
  oneClass := by
    intro id hid
    obtain ⟨c, hc⟩ := exists_inClass hid
    exact ⟨c, hc, fun c' hc' => hc.unique hv hl hc'⟩
  once := fun id c hc h => count_placed hv hl hc h
  nowhereElse := fun id c hnot hmem => hnot ((mem_placed_iff hv hl c).1 hmem).2
  missing := by
    intro p hp
    rw [computeReconcileResult_eq hv hl] at hp
    exact (List.mem_filter.1 hp).1
  extra := by
    intro p hp
    rw [computeReconcileResult_eq hv hl] at hp
    exact (List.mem_filter.1 hp).1
  mismatch := by
    intro m hm
    rw [computeReconcileResult_eq hv hl] at hm
    obtain ⟨vp, hvp, hfound⟩ := List.mem_filterMap.1 hm
    obtain ⟨lp, hget, -, rfl⟩ := mismatchWith_eq_some_iff.1 hfound
    obtain ⟨hlp, hid⟩ := (get?_positionsById_iff hl).1 hget
    exact ⟨hvp, hlp, rfl, hid, nodup_mismatchFields vp lp, fun f => mem_mismatchFields⟩

/-! ### The order of the lists -/

theorem get?_positionsById_perm {positions' : List Position} (h : (identifiers positions).Nodup)
    (hperm : positions.Perm positions') :
    (positionsById positions).get? id = (positionsById positions').get? id := by
  have h' : (identifiers positions').Nodup := (hperm.map _).nodup_iff.1 h
  refine Option.ext fun p => ?_
  rw [get?_positionsById_iff h, get?_positionsById_iff h', hperm.mem_iff]

/-- The results of lists in other orders are the same, in other orders. -/
theorem computeReconcileResult_perm {venuePositions' localPositions' : List Position}
    (hv : (identifiers venuePositions).Nodup) (hl : (identifiers localPositions).Nodup)
    (hvenue : venuePositions.Perm venuePositions') (hlocal : localPositions.Perm localPositions') :
    let r := computeReconcileResult venuePositions localPositions
    let r' := computeReconcileResult venuePositions' localPositions'
    r.missingLocally.Perm r'.missingLocally ∧ r.extraLocally.Perm r'.extraLocally ∧
      r.mismatch.Perm r'.mismatch := by
  have hv' : (identifiers venuePositions').Nodup := (hvenue.map _).nodup_iff.1 hv
  have hl' : (identifiers localPositions').Nodup := (hlocal.map _).nodup_iff.1 hl
  have hskip : ∀ {l l' m m' : List Position}, l.Perm l' → m.Perm m' →
      (l.filter (·.positionId ∉ identifiers m)).Perm (l'.filter (·.positionId ∉ identifiers m')) := by
    intro l l' m m' hl hm
    have hsame : ∀ p ∈ l', decide (p.positionId ∉ identifiers m) =
        decide (p.positionId ∉ identifiers m') := by
      intro p _
      simp only [(hm.map Position.positionId).mem_iff]
    exact (hl.filter _).trans (by rw [List.filter_congr hsame])
  have hwith : mismatchWith (positionsById localPositions) =
      mismatchWith (positionsById localPositions') := by
    funext vp
    rw [mismatchWith, mismatchWith, get?_positionsById_perm hl hlocal]
  simp only [computeReconcileResult_eq hv hl, computeReconcileResult_eq hv' hl', hwith]
  exact ⟨hskip hvenue hlocal, hskip hlocal hvenue, hvenue.filterMap _⟩

/-! ### The actions -/

/-- How often an identifier is marked. -/
theorem countP_marks_buildActions (result : ReconcileResult) (venueName : Option String) (id : String) :
    (buildActions result venueName).countP (·.marks id) =
      (result.placed .extraLocally).count id + (result.placed .mismatch).count id := by
  have hextra : (result.extraLocally.map fun p =>
      ReconcileAction.markStalePosition p.positionId "extra_locally" []).countP (·.marks id) =
        (result.placed .extraLocally).count id := by
    rw [ReconcileResult.placed, identifiers, List.count, List.countP_map, List.countP_map]
    rfl
  have hmismatch : (result.mismatch.map fun m => ReconcileAction.markStalePosition m.positionId
      (mismatchReason m.fieldsDiff) m.fieldsDiff).countP (·.marks id) =
        (result.placed .mismatch).count id := by
    rw [ReconcileResult.placed, List.count, List.countP_map, List.countP_map]
    rfl
  unfold buildActions
  rw [List.countP_append, List.countP_append, List.countP_append, hextra, hmismatch]
  by_cases hmissing : result.missingLocally = [] <;> by_cases hmis : result.mismatch = [] <;>
    simp [hmissing, hmis, ReconcileAction.marks]

theorem mem_resync_iff {result : ReconcileResult} {venueName name : Option String} {reason : String} :
    .requestResync reason name ∈ buildActions result venueName ↔
      name = venueName ∧ (reason = "missing_locally" ∧ result.missingLocally ≠ [] ∨
        reason = "mismatch" ∧ result.mismatch ≠ []) := by
  unfold buildActions
  by_cases hmissing : result.missingLocally = [] <;> by_cases hmis : result.mismatch = [] <;>
    simp [hmissing, hmis, and_comm, and_or_left]

theorem buildActions_eq_nil_iff {result : ReconcileResult} {venueName : Option String} :
    buildActions result venueName = [] ↔
      result.missingLocally = [] ∧ result.extraLocally = [] ∧ result.mismatch = [] := by
  unfold buildActions
  by_cases hmissing : result.missingLocally = [] <;> by_cases hmis : result.mismatch = [] <;>
    simp [hmissing, hmis]

/-- A list of a result is empty just if its class is. -/
theorem placed_eq_nil_iff (hv : (identifiers venuePositions).Nodup)
    (hl : (identifiers localPositions).Nodup) {c : PositionClass} (hc : c ≠ .same) :
    (computeReconcileResult venuePositions localPositions).placed c = [] ↔
      ∀ id, ¬ InClass venuePositions localPositions id c := by
  rw [List.eq_nil_iff_forall_not_mem]
  simp only [mem_placed_iff hv hl, hc, ne_eq, not_false_eq_true, true_and]

/-- How often an identifier is marked, by its class. -/
theorem countP_marks (hv : (identifiers venuePositions).Nodup)
    (hl : (identifiers localPositions).Nodup) (venueName : Option String) {c : PositionClass}
    (h : InClass venuePositions localPositions id c) :
    (buildActions (computeReconcileResult venuePositions localPositions) venueName).countP (·.marks id) =
      if c = .extraLocally ∨ c = .mismatch then 1 else 0 := by
  have hpart := partition_computeReconcileResult hv hl
  have hother : ∀ c', c' ≠ c →
      ((computeReconcileResult venuePositions localPositions).placed c').count id = 0 := fun c' hc' =>
    List.count_eq_zero.2 (hpart.nowhereElse id c' fun h' => hc' (h.unique hv hl h'))
  rw [countP_marks_buildActions]
  cases c with
  | missingLocally =>
      rw [hother _ (by decide), hother _ (by decide)]
      rfl
  | extraLocally =>
      rw [hpart.once id _ (by decide) h, hother _ (by decide)]
      rfl
  | mismatch =>
      rw [hpart.once id _ (by decide) h, hother _ (by decide)]
      rfl
  | same =>
      rw [hother _ (by decide), hother _ (by decide)]
      rfl

/-- There is nothing to do just if all identifiers stand for the same positions. -/
theorem buildActions_eq_nil_iff_same (hv : (identifiers venuePositions).Nodup)
    (hl : (identifiers localPositions).Nodup) (venueName : Option String) :
    buildActions (computeReconcileResult venuePositions localPositions) venueName = [] ↔
      ∀ id ∈ identifiers venuePositions ++ identifiers localPositions,
        InClass venuePositions localPositions id .same := by
  have hempty : buildActions (computeReconcileResult venuePositions localPositions) venueName = [] ↔
      ∀ c, c ≠ .same → (computeReconcileResult venuePositions localPositions).placed c = [] := by
    rw [buildActions_eq_nil_iff]
    constructor
    · rintro ⟨hmissing, hextra, hmis⟩ c hc
      cases c with
      | missingLocally => exact List.map_eq_nil_iff.2 hmissing
      | extraLocally => exact List.map_eq_nil_iff.2 hextra
      | mismatch => exact List.map_eq_nil_iff.2 hmis
      | same => exact absurd rfl hc
    · intro h
      exact ⟨List.map_eq_nil_iff.1 (h .missingLocally (by decide)),
        List.map_eq_nil_iff.1 (h .extraLocally (by decide)),
        List.map_eq_nil_iff.1 (h .mismatch (by decide))⟩
  rw [hempty]
  constructor
  · intro h id hid
    obtain ⟨c, hc⟩ := exists_inClass hid
    by_cases hsame : c = .same
    · exact hsame ▸ hc
    · exact absurd hc ((placed_eq_nil_iff hv hl hsame).1 (h c hsame) id)
  · intro h c hc
    refine (placed_eq_nil_iff hv hl hc).2 fun id hid => hc ?_
    have hmem : id ∈ identifiers venuePositions ++ identifiers localPositions := by
      rw [List.mem_append, hid.mem_iff.1, hid.mem_iff.2]
      cases c <;> simp
    exact (h id hmem).unique hv hl hid

/-- The actions cover the classes. -/
theorem cover_buildActions (hv : (identifiers venuePositions).Nodup)
    (hl : (identifiers localPositions).Nodup) (venueName : Option String) :
    Cover venuePositions localPositions venueName
      (buildActions (computeReconcileResult venuePositions localPositions) venueName) where
  marksOnce := by
    rintro id (h | h)
    · rw [countP_marks hv hl venueName h, if_pos (Or.inl rfl)]
    · rw [countP_marks hv hl venueName h, if_pos (Or.inr rfl)]
  marksOnly := by
    intro id a ha hmarks
    have hpos := List.countP_pos_iff.2 ⟨a, ha, hmarks⟩
    rw [countP_marks_buildActions] at hpos
    rcases Nat.add_pos_iff_pos_or_pos.1 hpos with hextra | hmis
    · exact Or.inl ((mem_placed_iff hv hl _).1 (List.count_pos_iff.1 hextra)).2
    · exact Or.inr ((mem_placed_iff hv hl _).1 (List.count_pos_iff.1 hmis)).2
  resyncMissing := by
    intro name
    have hmissing := placed_eq_nil_iff hv hl (c := .missingLocally) (by decide)
    rw [ReconcileResult.placed, List.map_eq_nil_iff] at hmissing
    simp [mem_resync_iff, hmissing]
  resyncMismatch := by
    intro name
    have hmis := placed_eq_nil_iff hv hl (c := .mismatch) (by decide)
    rw [ReconcileResult.placed, List.map_eq_nil_iff] at hmis
    simp [mem_resync_iff, hmis]
  nil := buildActions_eq_nil_iff_same hv hl venueName

/-! ### The whole comparison -/

/-- A position of 100 dollars, twice levered. -/
def listedPosition (id symbol : String) (notional : ℚ) : Position where
  pairId := 0
  tradeIndex := 0
  symbol := symbol
  isLong := true
  collateral := 100
  leverage := 2
  openPrice := 1
  currentPrice := 1
  notional := notional
  venuePositionId := some id

/-- Without a notional the size is that of the collateral; the symbol of the third position differs. -/
def fourClasses : List Position × List Position :=
  ([listedPosition "only venue" "EURUSD" 200, listedPosition "the same" "EURUSD" 0,
      listedPosition "different" "EURUSD" 200],
    [listedPosition "different" "GBPUSD" 200, listedPosition "only local" "EURUSD" 200,
      listedPosition "the same" "EURUSD" 200])

example : buildActions (computeReconcileResult fourClasses.1 fourClasses.2) none =
    [.requestResync "missing_locally" none, .markStalePosition "only local" "extra_locally" [],
      .markStalePosition "different" "mismatch:symbol" [.symbol], .requestResync "mismatch" none] := by
  decide +kernel

end Reconciliation
