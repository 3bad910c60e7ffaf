/-
**Reconciliation of the local positions with those of the venue.**

At each tick the service lists the positions of the venue and its own, compares them by
identifier, and turns the differences into actions: a resynchronisation is requested, and a local
position that the venue does not have, or has with other data, is marked stale.  A listing that
raises ends the tick.

Main definitions:

* `computeReconcileResult`, `buildActions` — the comparison and the actions;
* `runOneTick`, `reconcileTick` — a tick, and the actions it hands on.

Main results:

* `marked_stale_iff` — which local positions a comparison marks stale;
* `reconcileTick_of_error` — a listing that raises marks nothing;
* `reconcileTick_of_nil` — an empty listing marks every local position.
-/

import Brokerage.LiveGuards
import Brokerage.Dict

set_option relaxedAutoImplicit false
set_option autoImplicit false

/-- The fields that are compared. -/
inductive MismatchField
  | symbol
  | isLong
  | size
  deriving DecidableEq

/-- The name of a field in a reason. -/
def MismatchField.name : MismatchField → String
  | .symbol => "symbol"
  | .isLong => "is_long"
  | .size => "size"

/-- A position that the venue describes in another way. -/
structure PositionMismatch where
  positionId : String
  venuePosition : Position
  localPosition : Position
  fieldsDiff : List MismatchField
  deriving DecidableEq

/-- The differences found by a tick. -/
structure ReconcileResult where
  missingLocally : List Position
  extraLocally : List Position
  mismatch : List PositionMismatch
  deriving DecidableEq

/-- Whether there is any difference. -/
def ReconcileResult.hasDiffs (r : ReconcileResult) : Bool :=
  !(r.missingLocally.isEmpty && r.extraLocally.isEmpty && r.mismatch.isEmpty)

/-- What a tick asks for. -/
inductive ReconcileAction
  | markStalePosition (positionId reason : String) (fields : List MismatchField)
  | requestResync (reason : String) (venueName : Option String)
  deriving DecidableEq

/-- The size of a position in dollars. -/
def Position.size (p : Position) : ℚ :=
  if p.notional = 0 then p.collateral * p.leverage else p.notional

/-- The fields in which two positions differ. -/
def mismatchFields (venuePosition localPosition : Position) : List MismatchField :=
  (if venuePosition.symbol ≠ localPosition.symbol then [.symbol] else []) ++
  (if venuePosition.isLong ≠ localPosition.isLong then [.isLong] else []) ++
  (if venuePosition.size ≠ localPosition.size then [.size] else [])

/-- Positions by identifier; of several with one identifier the last counts. -/
def positionsById (positions : List Position) : Dict String Position :=
  positions.foldl (fun d p => d.set p.positionId p) Dict.empty

/-- The comparison of the positions of the venue with the local ones. -/
def computeReconcileResult (venuePositions localPositions : List Position) : ReconcileResult :=
  let venueById := positionsById venuePositions
  let localById := positionsById localPositions
  { missingLocally := venueById.entries.filterMap fun e =>
      if localById.contains e.1 then none else some e.2
    extraLocally := localById.entries.filterMap fun e =>
      if venueById.contains e.1 then none else some e.2
    mismatch := venueById.entries.filterMap fun e =>
      match localById.get? e.1 with
      | none => none
      | some lp =>
          if mismatchFields e.2 lp = [] then none
          else some ⟨e.1, e.2, lp, mismatchFields e.2 lp⟩ }

/-- The reason for marking a mismatch. -/
def mismatchReason (fields : List MismatchField) : String :=
  "mismatch:" ++ ",".intercalate (fields.map MismatchField.name)

/-- The actions of a result. -/
def buildActions (result : ReconcileResult) (venueName : Option String) : List ReconcileAction :=
  (if result.missingLocally = [] then [] else [.requestResync "missing_locally" venueName]) ++
  (result.extraLocally.map fun p => .markStalePosition p.positionId "extra_locally" []) ++
  (result.mismatch.map fun m =>
    .markStalePosition m.positionId (mismatchReason m.fieldsDiff) m.fieldsDiff) ++
  (if result.mismatch = [] then [] else [.requestResync "mismatch" venueName])

/-- One tick: an exception of the listing ends it. -/
def runOneTick (listing : Except CoreError (List Position)) (localPositions : List Position) :
    Except CoreError ReconcileResult :=
  match listing with
  | .error e => .error e
  | .ok venuePositions => .ok (computeReconcileResult venuePositions localPositions)

/-- The actions a tick hands to the sink. -/
def reconcileTick (listing : Except CoreError (List Position)) (localPositions : List Position)
    (venueName : Option String) : List ReconcileAction :=
  match runOneTick listing localPositions with
  | .error _ => []
  | .ok result => if result.hasDiffs then buildActions result venueName else []

/-! ### What is marked stale -/

/-- The action marks a position stale. -/
def ReconcileAction.MarksStale (a : ReconcileAction) (positionId : String) : Prop :=
  ∃ reason fields, a = .markStalePosition positionId reason fields

/-- The keys of positions by identifier are their identifiers. -/
theorem get?_positionsById {positions : List Position} {id : String} {p : Position}
    (h : (positionsById positions).get? id = some p) : p ∈ positions ∧ p.positionId = id := by
  have key : ∀ (l : List Position) (d : Dict String Position),
      (l.foldl (fun d p => d.set p.positionId p) d).get? id = some p →
      d.get? id = some p ∨ p ∈ l ∧ p.positionId = id := by
    intro l
    induction l with
    | nil => exact fun d hd => Or.inl hd
    | cons q l ih =>
        intro d hd
        rcases ih _ hd with hset | ⟨hmem, hid⟩
        · rw [Dict.get?_set] at hset
          split at hset
          · cases hset
            exact Or.inr ⟨List.mem_cons_self, Eq.symm ‹_›⟩
          · exact Or.inl hset
        · exact Or.inr ⟨List.mem_cons_of_mem _ hmem, hid⟩
  rcases key positions Dict.empty h with hempty | hmem
  · cases hempty
  · exact hmem

/-- Every listed position is found, under its identifier, in the positions by identifier. -/
theorem contains_positionsById {positions : List Position} {p : Position} (h : p ∈ positions) :
    (positionsById positions).contains p.positionId = true := by
  have key : ∀ (l : List Position) (d : Dict String Position),
      (p ∈ l ∨ p.positionId ∈ d.keys) →
      p.positionId ∈ (l.foldl (fun d p => d.set p.positionId p) d).keys := by
    intro l
    induction l with
    | nil => intro d hd; exact hd.resolve_left (List.not_mem_nil)
    | cons q l ih =>
        intro d hd
        refine ih _ ?_
        rcases hd with hmem | hkey
        · rcases List.mem_cons.1 hmem with rfl | hmem
          · exact Or.inr (Dict.mem_keys_set.2 (Or.inl rfl))
          · exact Or.inl hmem
        · exact Or.inr (Dict.mem_keys_set.2 (Or.inr hkey))
  exact Dict.mem_keys_iff_contains.1 (key positions Dict.empty (Or.inl h))

/-- A position is marked stale because it is extra, or because of a mismatch. -/
theorem mem_buildActions_stale {result : ReconcileResult} {venueName : Option String}
    {id reason : String} {fields : List MismatchField} :
    .markStalePosition id reason fields ∈ buildActions result venueName ↔
      (∃ p ∈ result.extraLocally, p.positionId = id ∧ "extra_locally" = reason ∧ [] = fields) ∨
      ∃ m ∈ result.mismatch, m.positionId = id ∧ mismatchReason m.fieldsDiff = reason ∧
        m.fieldsDiff = fields := by
  unfold buildActions
  by_cases hmissing : result.missingLocally = [] <;> by_cases hmis : result.mismatch = [] <;>
    simp [hmissing, hmis]

/-- The local positions a comparison marks stale: those that the venue does not have, and those it
has with another symbol, direction or size. -/
theorem marked_stale_iff (venuePositions localPositions : List Position)
    (venueName : Option String) (id : String) :
    (∃ a ∈ buildActions (computeReconcileResult venuePositions localPositions) venueName,
        a.MarksStale id) ↔
      ∃ lp, (positionsById localPositions).get? id = some lp ∧
        ∀ vp, (positionsById venuePositions).get? id = some vp → mismatchFields vp lp ≠ [] := by
  constructor
  · rintro ⟨a, ha, reason, fields, rfl⟩
    rcases mem_buildActions_stale.1 ha with ⟨p, hp, rfl, -, -⟩ | ⟨m, hm, rfl, -, -⟩
    · obtain ⟨e, he, hextra⟩ := List.mem_filterMap.1 hp
      split at hextra
      · cases hextra
      · rename_i hnot
        cases hextra
        have hget := Dict.get?_eq_some_iff.2 he
        have hid := (get?_positionsById hget).2
        refine ⟨e.2, hid ▸ hget, fun vp hvp => ?_⟩
        rw [← hid, Dict.contains, hvp] at hnot
        exact absurd rfl hnot
    · obtain ⟨e, he, hmis⟩ := List.mem_filterMap.1 hm
      split at hmis
      · cases hmis
      · rename_i lp hlp
        split at hmis
        · cases hmis
        · rename_i hfields
          cases hmis
          refine ⟨lp, hlp, fun vp hvp => ?_⟩
          rw [Dict.get?_eq_some_iff.2 he] at hvp
          cases hvp
          exact hfields
  · rintro ⟨lp, hlp, hdiff⟩
    cases hvp : (positionsById venuePositions).get? id with
    | none =>
        refine ⟨_, mem_buildActions_stale.2 (Or.inl ⟨lp, ?_, (get?_positionsById hlp).2, rfl, rfl⟩),
          _, _, rfl⟩
        refine List.mem_filterMap.2 ⟨(id, lp), Dict.get?_eq_some_iff.1 hlp, ?_⟩
        simp [Dict.contains, hvp]
    | some vp =>
        refine ⟨_, mem_buildActions_stale.2 (Or.inr ⟨⟨id, vp, lp, mismatchFields vp lp⟩, ?_, rfl, rfl,
          rfl⟩), _, _, rfl⟩
        refine List.mem_filterMap.2 ⟨(id, vp), Dict.get?_eq_some_iff.1 hvp, ?_⟩
        simp [hlp, hdiff vp hvp]

/-- A listing that raises marks nothing. -/
@[simp] theorem reconcileTick_of_error (e : CoreError) (localPositions : List Position)
    (venueName : Option String) : reconcileTick (.error e) localPositions venueName = [] := rfl

/-- An empty listing marks every local position. -/
theorem reconcileTick_of_nil {localPositions : List Position} {p : Position}
    (h : p ∈ localPositions) (venueName : Option String) :
    ∃ a ∈ reconcileTick (.ok []) localPositions venueName, a.MarksStale p.positionId := by
  obtain ⟨lp, hlp⟩ := Option.isSome_iff_exists.1 (contains_positionsById h)
  obtain ⟨a, ha, hstale⟩ := (marked_stale_iff [] localPositions venueName p.positionId).2
    ⟨lp, hlp, fun vp hvp => by cases hvp⟩
  have hdiffs : (computeReconcileResult [] localPositions).hasDiffs = true := by
    have hextra : lp ∈ (computeReconcileResult [] localPositions).extraLocally :=
      List.mem_filterMap.2 ⟨(p.positionId, lp), Dict.get?_eq_some_iff.1 hlp, rfl⟩
    have hne := List.ne_nil_of_mem hextra
    simp [ReconcileResult.hasDiffs, hne]
  refine ⟨a, ?_, hstale⟩
  simp only [reconcileTick, runOneTick, hdiffs, if_true]
  exact ha
