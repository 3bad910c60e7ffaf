/-
**The operations of the requests are those of the file.**

The requests that open and close work on operations whose kind, status and error are values of their
own.  The file has records of texts, with the times of the writes.  Both describe one service: after
any calls the records are those of the operations, in memory and for a new process that reads the
file, and what the requests do to the operations is a list of such calls.

Main definitions:

* `OperationService.Request`, `OperationService.run` — the calls of the service, and what any calls
  leave;
* `Operation.record`, `RecordOf` — the record of an operation at given times, and at any;
* `OperationService.Request.written` — the call as it is made of texts;
* `OperationService.Renders` — the records are those of the operations, one after the other.

Main results:

* `OperationService.call_renders` — a call keeps this;
* `OperationService.records_of_run` — after any calls, and after a restart, each operation has its
  record;
* `OperationTasks.exec_run` — what requests do to the operations is a list of calls;
* `OperationTasks.records_of_exec` — the operations of the requests have their records.
-/

import Brokerage.OperationLog
import Brokerage.OperationTasks

set_option relaxedAutoImplicit false
set_option autoImplicit false

/-! ### Related dictionaries -/

/-- If the pairs that are written are related one by one, so is what is found under a key. -/
theorem Dict.rel_get?_setAll {κ ν μ : Type*} [DecidableEq κ] {R : ν → μ → Prop}
    {ps : List (κ × ν)} {qs : List (κ × μ)}
    (h : List.Forall₂ (fun p q => p.1 = q.1 ∧ R p.2 q.2) ps qs) (k : κ) :
    Option.Rel R ((Dict.empty.setAll ps).get? k) ((Dict.empty.setAll qs).get? k) := by
  rw [get?_setAll, get?_setAll, get?_empty, get?_empty, Option.or_none, Option.or_none]
  have hreverse := List.forall₂_reverse_iff.2 h
  generalize ps.reverse = ps', qs.reverse = qs' at hreverse
  induction hreverse with
  | nil => exact .none
  | @cons p q ps' qs' hpq hrest ih =>
      rw [lookup_cons_ite, lookup_cons_ite, ← hpq.1]
      split
      · exact .some hpq.2
      · exact ih

/-! ### The texts of an operation -/

/-- The text of a status. -/
def OperationStatus.text : OperationStatus → String
  | .inProgress => "in_progress"
  | .pending => "pending"
  | .confirmed => "confirmed"
  | .error => "error"

/-- The text of a kind. -/
def OperationKind.text : OperationKind → String
  | .openOrder => "open"
  | .closeOrder => "close"

variable (errorText : OperationError → String)

/-- The record of an operation, with the times of its first and its last write. -/
def Operation.record (op : Operation) (createdAt lastUpdate : String) : OperationRecord where
  operationId := op.operationId
  kind := op.kind.text
  venue := op.venue
  symbol := op.symbol
  positionId := op.positionId
  txHash := op.txHash
  status := op.status.text
  createdAt := createdAt
  lastUpdate := lastUpdate
  error := op.error.map errorText

/-- A record of an operation, whatever its times are. -/
def RecordOf (op : Operation) (r : OperationRecord) : Prop :=
  r = op.record errorText r.createdAt r.lastUpdate

variable {errorText}

theorem RecordOf.operationId {op : Operation} {r : OperationRecord} (h : RecordOf errorText op r) :
    r.operationId = op.operationId := by
  rw [h]
  rfl

/-- The record of an operation that is updated. -/
theorem RecordOf.updated {op : Operation} {r : OperationRecord} (h : RecordOf errorText op r)
    (status : OperationStatus) (positionId txHash : String) (error : Option OperationError)
    (now : IsoTime) :
    RecordOf errorText (op.updated status positionId txHash error)
      (r.updated status.text positionId txHash (error.map errorText) now) := by
  have herror : (error.map errorText).or (op.error.map errorText) =
      (error.or op.error).map errorText := by
    cases error <;> rfl
  rw [RecordOf, OperationRecord.updated, Operation.record, Operation.updated, h]
  simp only [Operation.record, herror]

namespace OperationService

/-! ### Calls -/

/-- A call of the service. -/
inductive Request
  | create (operationId : String) (kind : OperationKind) (venue symbol positionId : String)
  | update (operationId : String) (status : OperationStatus) (positionId txHash : String)
      (error : Option OperationError)

/-- What a call does. -/
def call (t : OperationService) : Request → OperationService
  | .create operationId kind venue symbol positionId =>
      t.create operationId kind venue symbol positionId
  | .update operationId status positionId txHash error =>
      t.update operationId status positionId txHash error

/-- What calls leave of a service without operations. -/
def run (requests : List Request) : OperationService := requests.foldl call init

variable (errorText)

/-- The call with its values as texts, at a time. -/
def Request.written (now : IsoTime) : Request → OperationCall
  | .create operationId kind venue symbol positionId =>
      .create operationId kind.text venue symbol positionId now
  | .update operationId status positionId txHash error =>
      .update operationId status.text positionId txHash (error.map errorText) now

/-- A call at a time, as a step of the service of the texts. -/
def fileStep (s : OperationLog) (c : Request × IsoTime) : Option OperationLog :=
  OperationLog.step s (c.1.written errorText c.2)

/-- The texts of a call can be read back. -/
def FileWritable (s : OperationLog) (c : Request × IsoTime) : Prop :=
  OperationLog.Writable s (c.1.written errorText c.2)

/-! ### The records of the operations -/

/-- An operation under its identifier. -/
def entry (op : Operation) : String × Operation := (op.operationId, op)

/-- The lines of the file are records `rs` of the operations in the log, and the operations in memory
are what they make. -/
structure Renders (t : OperationService) (s : OperationLog) (rs : List OperationRecord) :
    Prop where
  log : List.Forall₂ (RecordOf errorText) t.log rs
  store : t.store = Dict.empty.setAll (t.log.map entry)
  inv : OperationLog.Inv s rs

variable {errorText} {t : OperationService} {s : OperationLog} {rs : List OperationRecord}

theorem renders_init : Renders errorText init OperationLog.init [] :=
  ⟨.nil, rfl, OperationLog.inv_init⟩

/-- Records of operations, under the identifiers. -/
theorem forall₂_entry {ops : List Operation} (h : List.Forall₂ (RecordOf errorText) ops rs) :
    List.Forall₂ (fun p q => p.1 = q.1 ∧ RecordOf errorText p.2 q.2) (ops.map entry)
      (rs.map OperationLog.entry) := by
  rw [List.forall₂_map_left_iff, List.forall₂_map_right_iff]
  exact h.imp fun op r hr => ⟨hr.operationId.symm, hr⟩

/-- Records of operations have their identifiers. -/
theorem map_operationId {ops : List Operation} (h : List.Forall₂ (RecordOf errorText) ops rs) :
    ops.map Operation.operationId = rs.map OperationRecord.operationId := by
  induction h with
  | nil => rfl
  | cons hr _ ih => rw [List.map_cons, List.map_cons, hr.operationId, ih]

/-- Each operation in memory has its record. -/
theorem Renders.shows (h : Renders errorText t s rs) (id : String) :
    Option.Rel (RecordOf errorText) (t.store.get? id) (s.store.get? id) := by
  rw [h.store, h.inv.store]
  exact Dict.rel_get?_setAll (forall₂_entry h.log) id

/-- Writing an operation, and its record. -/
theorem Renders.write (h : Renders errorText t s rs) {op : Operation} {r : OperationRecord}
    (hr : RecordOf errorText op r) {s' : OperationLog} (hs' : OperationLog.Inv s' (rs ++ [r])) :
    Renders errorText (t.write op) s' (rs ++ [r]) where
  log := List.rel_append h.log (.cons hr .nil)
  store := by
    rw [OperationService.write, h.store, List.map_append, Dict.setAll, Dict.setAll,
      List.foldl_append]
    rfl
  inv := hs'

/-- A call keeps the records those of the operations. -/
theorem call_renders (h : Renders errorText t s rs) (request : Request) (now : IsoTime)
    (hw : OperationLog.Writable s (request.written errorText now)) :
    ∃ rs', Renders errorText (t.call request) (s.call (request.written errorText now)) rs' := by
  cases request with
  | create operationId kind venue symbol positionId =>
      have hnew : RecordOf errorText { operationId, kind, venue, symbol, positionId }
          (.new operationId kind.text venue symbol positionId now) := rfl
      exact ⟨_, h.write hnew (h.inv.create hw)⟩
  | update operationId status positionId txHash error =>
      have hshows := h.shows operationId
      cases hget : t.store.get? operationId with
      | none =>
          rw [hget] at hshows
          generalize hr : s.store.get? operationId = r? at hshows
          cases hshows
          refine ⟨rs, ?_⟩
          rw [call, update, hget, Request.written, OperationLog.call, OperationLog.update, hr]
          exact h
      | some op =>
          rw [hget] at hshows
          generalize hr : s.store.get? operationId = r? at hshows
          cases hshows with
          | some hrecord =>
              obtain ⟨rs', hwrite⟩ : ∃ rs', Renders errorText _ _ rs' :=
                ⟨_, h.write (hrecord.updated status positionId txHash error now)
                  (h.inv.update hr hw)⟩
              refine ⟨rs', ?_⟩
              have hid : (op.updated status positionId txHash error).operationId = operationId :=
                hrecord.operationId.symm.trans (h.inv.mem_of_get? hr).2
              rw [OperationService.write, hid] at hwrite
              rw [call, update, hget]
              exact hwrite

/-- The last lines of the log are read like records. -/
theorem replay_eq_setAll {ops : List Operation} (hops : ∀ op ∈ ops, op.operationId ≠ "")
    (store : Dict String Operation) : replay store ops = store.setAll (ops.map entry) := by
  induction ops generalizing store with
  | nil => rfl
  | cons op ops ih =>
      rw [replay, List.foldl_cons, if_neg (hops op List.mem_cons_self)]
      exact ih (fun op' hop' => hops op' (List.mem_cons_of_mem _ hop')) _

/-- Each operation that a new process reads has the record that a new process reads. -/
theorem Renders.restart (h : Renders errorText t s rs) {loads : List Char → LoadedLine}
    (hloads : OperationLog.RoundTrips loads) (id : String) :
    Option.Rel (RecordOf errorText) (t.restart.store.get? id)
      ((OperationLog.restart loads s).store.get? id) := by
  have hlast : List.Forall₂ (RecordOf errorText) t.lastLines
      (rs.drop (rs.length - OperationLog.OPERATIONS_REHYDRATE_MAX_LINES)) := by
    rw [lastLines, h.log.length_eq]
    exact List.forall₂_drop _ h.log
  have hids : ∀ op ∈ t.lastLines, op.operationId ≠ "" := by
    intro op hop
    have hmem := List.mem_map_of_mem (f := Operation.operationId) hop
    rw [map_operationId hlast, List.mem_map] at hmem
    obtain ⟨r, hr, hid⟩ := hmem
    rw [← hid]
    exact (h.inv.legible r (List.mem_of_mem_drop hr)).operationId
  have hlines : (⟨Dict.empty, t.log⟩ : OperationService).lastLines = t.lastLines := rfl
  have hstore : t.restart.store = Dict.empty.setAll (t.lastLines.map entry) := by
    rw [OperationService.restart, rehydrate, hlines]
    dsimp only
    rw [replay_eq_setAll hids]
  rw [hstore, h.inv.restart hloads]
  exact Dict.rel_get?_setAll (forall₂_entry hlast) id

/-- After any calls whose texts can be read back, each operation has its record, in memory and for a
new process. -/
theorem records_of_run {calls : List (Request × IsoTime)}
    (hcalls : Transition.Meets (fileStep errorText) (FileWritable errorText) OperationLog.init calls)
    (h : Transition.exec (fileStep errorText) OperationLog.init calls = some s) (id : String) :
    Option.Rel (RecordOf errorText) ((run (calls.map Prod.fst)).store.get? id) (s.store.get? id) ∧
      ∀ loads, OperationLog.RoundTrips loads →
        Option.Rel (RecordOf errorText) ((run (calls.map Prod.fst)).restart.store.get? id)
          ((OperationLog.restart loads s).store.get? id) := by
  obtain ⟨rs, hrs⟩ : ∃ rs, Renders errorText (run (calls.map Prod.fst)) s rs := by
    rw [run, List.foldl_map]
    refine Transition.exec_simulation_of_meets (R := fun s t => ∃ rs, Renders errorText t s rs) _
      ?_ ⟨[], renders_init⟩ hcalls h
    rintro s t c s' ⟨rs, hrs⟩ hc hstep
    obtain rfl : s.call (c.1.written errorText c.2) = s' := Option.some.inj hstep
    exact call_renders hrs c.1 c.2 hc
  exact ⟨hrs.shows id, fun loads hloads => hrs.restart hloads id⟩

end OperationService

namespace OperationTasks

open OperationService (Request run)

variable {core : TradingCore}

/-- A step of the requests does nothing to the operations, or calls the service. -/
theorem step_call {p q : TaskPool OperationShared OperationTask}
    {l : TaskLabel OperationRequest OperationAnswer Empty} (h : (system core).step p l = some q) :
    q.shared.operations = p.shared.operations ∨
      ∃ request, q.shared.operations = p.shared.operations.call request := by
  cases l with
  | enter r =>
      obtain ⟨w, t, he, rfl⟩ := TaskSystem.step_enter.1 h
      rcases enter_cases (Option.some.inj he) with ⟨hops, -⟩ |
        ⟨operationId, kind, venue, symbol, positionId, -, hops, -, -⟩
      · exact .inl hops
      · exact .inr ⟨.create operationId kind venue symbol positionId, hops⟩
  | resume i a =>
      obtain ⟨t, w, t', -, hr, rfl⟩ := TaskSystem.step_resume.1 h
      obtain ⟨-, operationId, -, hupdates⟩ := resume_moves hr
      rcases hupdates with ⟨hops, -⟩ | ⟨-, positionId, txHash, error, hops⟩
      · exact .inl hops
      · exact .inr ⟨.update operationId _ positionId txHash error, hops⟩
  | restart k => exact k.elim

/-- What requests do to the operations of a new process is a list of calls of the service. -/
theorem exec_run {openCache : Dict String String} {closeCache : Dict CloseKey CachedClose}
    {ls : List (TaskLabel OperationRequest OperationAnswer Empty)}
    {p : TaskPool OperationShared OperationTask}
    (h : Transition.exec (system core).step
      ⟨⟨OperationService.init, openCache, closeCache⟩, []⟩ ls = some p) :
    ∃ requests, p.shared.operations = run requests := by
  refine Transition.exec_invariant (I := fun p : TaskPool OperationShared OperationTask =>
    ∃ requests, p.shared.operations = run requests) ?_ ⟨[], rfl⟩ h
  rintro p l q ⟨requests, hrequests⟩ hstep
  rcases step_call hstep with hops | ⟨request, hops⟩
  · exact ⟨requests, hops.trans hrequests⟩
  · refine ⟨requests ++ [request], ?_⟩
    rw [run, List.foldl_append, hops, hrequests]
    rfl

/-- The operations of a run of requests are those of calls; whenever these are made at some times,
with texts that can be read back, each operation has its record, in memory and for a new process. -/
theorem records_of_exec {openCache : Dict String String} {closeCache : Dict CloseKey CachedClose}
    {ls : List (TaskLabel OperationRequest OperationAnswer Empty)}
    {p : TaskPool OperationShared OperationTask}
    (h : Transition.exec (system core).step
      ⟨⟨OperationService.init, openCache, closeCache⟩, []⟩ ls = some p) :
    ∃ requests, ∀ (errorText : OperationError → String) (calls : List (Request × IsoTime))
        (s : OperationLog), calls.map Prod.fst = requests →
      Transition.Meets (OperationService.fileStep errorText)
        (OperationService.FileWritable errorText) OperationLog.init calls →
      Transition.exec (OperationService.fileStep errorText) OperationLog.init calls = some s →
        ∀ id, Option.Rel (RecordOf errorText) (p.shared.operations.store.get? id)
            (s.store.get? id) ∧
          ∀ loads, OperationLog.RoundTrips loads →
            Option.Rel (RecordOf errorText) (p.shared.operations.restart.store.get? id)
              ((OperationLog.restart loads s).store.get? id) := by
  obtain ⟨requests, hrequests⟩ := exec_run h
  refine ⟨requests, fun errorText calls s hcalls hwritable hexec id => ?_⟩
  rw [hrequests, ← hcalls]
  exact OperationService.records_of_run hwritable hexec id

end OperationTasks
