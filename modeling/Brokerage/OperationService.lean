/-
**The operations, in memory and in their log.**

Every open and close order is an operation: a record with a status, which clients poll.  The
service keeps the operations in a dictionary and appends a line to a log whenever one of them
changes; after a restart the dictionary is rebuilt from the last lines of the log.

Main definitions:

* `Operation`, `OperationService` — an operation, and the store with its log;
* `OperationService.create`, `OperationService.update` — the two writes;
* `OperationService.rehydrate` — the store after a restart.

Main results:

* `OperationService.get?_update` — what an update does to the store;
* `OperationService.log_update` — an update writes a line of the log;
* `OperationService.mem_log_of_restart` — what is found after a restart was written before.
-/

import Brokerage.Dict
import Brokerage.LiveGuards

set_option relaxedAutoImplicit false
set_option autoImplicit false

/-- The status of an operation. -/
inductive OperationStatus
  | inProgress
  | pending
  | confirmed
  | error
  deriving DecidableEq

/-- The kind of an operation. -/
inductive OperationKind
  | openOrder
  | closeOrder
  deriving DecidableEq

/-- Why an operation failed: the exception, and the error code in front of its text, if any. -/
structure OperationError where
  code : Option String := none
  exception : CoreError
  deriving DecidableEq

/-- An operation. -/
structure Operation where
  operationId : String
  kind : OperationKind
  venue : String
  symbol : String
  positionId : String
  txHash : String := ""
  status : OperationStatus := .inProgress
  error : Option OperationError := none
  deriving DecidableEq

/-- An operation with a new status; texts that are given replace those it has. -/
def Operation.updated (op : Operation) (status : OperationStatus) (positionId txHash : String)
    (error : Option OperationError) : Operation :=
  { op with
    status := status
    positionId := if positionId = "" then op.positionId else positionId
    txHash := if txHash = "" then op.txHash else txHash
    error := error.or op.error }

/-- The operations in memory and the lines of their log, oldest first. -/
structure OperationService where
  store : Dict String Operation
  log : List Operation
  deriving DecidableEq

namespace OperationService

/-- The number of lines that are read after a restart. -/
def OPERATIONS_REHYDRATE_MAX_LINES : ℕ := 5000

/-- A service without operations. -/
def init : OperationService := ⟨Dict.empty, []⟩

/-- Writing an operation to the store and to the log. -/
def write (s : OperationService) (op : Operation) : OperationService :=
  ⟨s.store.set op.operationId op, s.log ++ [op]⟩

/-- A new operation, in progress. -/
def create (s : OperationService) (operationId : String) (kind : OperationKind)
    (venue symbol positionId : String) : OperationService :=
  s.write { operationId, kind, venue, symbol, positionId }

/-- Updating an operation, if there is one with the identifier. -/
def update (s : OperationService) (operationId : String) (status : OperationStatus)
    (positionId : String) (txHash : String) (error : Option OperationError) : OperationService :=
  match s.store.get? operationId with
  | none => s
  | some op =>
      { store := s.store.set operationId (op.updated status positionId txHash error)
        log := s.log ++ [op.updated status positionId txHash error] }

/-- Reading lines of a log into a store; a line without an identifier is skipped. -/
def replay (store : Dict String Operation) (lines : List Operation) : Dict String Operation :=
  lines.foldl (fun d op => if op.operationId = "" then d else d.set op.operationId op) store

/-- The lines of the log that are read. -/
def lastLines (s : OperationService) : List Operation :=
  s.log.drop (s.log.length - OPERATIONS_REHYDRATE_MAX_LINES)

/-- Reading the last lines of the log into the store. -/
def rehydrate (s : OperationService) : OperationService :=
  { s with store := replay s.store s.lastLines }

/-- The service of a new process, which has the log of the old one. -/
def restart (s : OperationService) : OperationService := rehydrate ⟨Dict.empty, s.log⟩

/-- Whether there is an operation with the identifier. -/
def has (s : OperationService) (operationId : String) : Bool := s.store.contains operationId

/-! ### What the writes do -/

@[simp] theorem log_write (s : OperationService) (op : Operation) :
    (s.write op).log = s.log ++ [op] := rfl

/-- An update writes the updated operation, if there is one. -/
theorem log_update (s : OperationService) (operationId : String) (status : OperationStatus)
    (positionId txHash : String) (error : Option OperationError) :
    (s.update operationId status positionId txHash error).log =
      s.log ++ ((s.store.get? operationId).map fun op =>
        op.updated status positionId txHash error).toList := by
  unfold update
  cases s.store.get? operationId <;> simp

theorem get?_write (s : OperationService) (op : Operation) (id : String) :
    (s.write op).store.get? id = if id = op.operationId then some op else s.store.get? id :=
  Dict.get?_set _ _ _ _

/-- Reading after an update. -/
theorem get?_update (s : OperationService) (operationId : String) (status : OperationStatus)
    (positionId txHash : String) (error : Option OperationError) (id : String) :
    (s.update operationId status positionId txHash error).store.get? id =
      if id = operationId then
        (s.store.get? operationId).map fun op =>
          op.updated status positionId txHash error
      else s.store.get? id := by
  cases hop : s.store.get? operationId with
  | none =>
      simp only [update, hop, Option.map_none]
      split
      · rename_i h
        rw [h, hop]
      · rfl
  | some op => simp only [update, hop, Dict.get?_set, Option.map_some]

/-- What is read from the lines of a log is one of them, or was there before. -/
theorem mem_of_replay {lines : List Operation} {store : Dict String Operation} {id : String}
    {op : Operation} (h : (replay store lines).get? id = some op) :
    store.get? id = some op ∨ op ∈ lines := by
  induction lines generalizing store with
  | nil => exact Or.inl h
  | cons line lines ih =>
      rcases ih h with hstore | hmem
      · dsimp only at hstore
        split at hstore
        · exact Or.inl hstore
        · rw [Dict.get?_set] at hstore
          split at hstore
          · cases hstore
            exact Or.inr List.mem_cons_self
          · exact Or.inl hstore
      · exact Or.inr (List.mem_cons_of_mem _ hmem)

@[simp] theorem log_restart (s : OperationService) : s.restart.log = s.log := by
  rw [restart, rehydrate]

/-- What is found after a restart was written before. -/
theorem mem_log_of_restart {s : OperationService} {id : String} {op : Operation}
    (h : s.restart.store.get? id = some op) : op ∈ s.log := by
  dsimp only [restart, rehydrate] at h
  rcases mem_of_replay h with hempty | hmem
  · rw [Dict.get?_empty] at hempty
    cases hempty
  · exact List.mem_of_mem_drop hmem

end OperationService
