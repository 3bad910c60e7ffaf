/-
**The log of the operations, as text, and what a new process reads of it.**

Whenever an operation is created or updated its whole record is appended to a file, as a JSON
object on a line of its own.  A new process reads the last lines of the file; of the records with
one identifier the last one counts.

The characters U+0085, U+2028 and U+2029 are written as they are, but the reader splits lines at
them, so that a record with one of them in a text is lost.  A record without an identifier is
skipped by the reader.

Main definitions:

* `OperationRecord` — the record of an operation, with all its fields;
* `OperationLog` — the operations in memory and the text of the file;
* `OperationLog.create`, `OperationLog.update` — the two writes;
* `OperationLog.rehydrate` — reading the file, for a given `json.loads`;
* `OperationLog.loadsRecord` — such a function, for the lines the program writes.

Main results:

* `OperationLog.exec_inv` — the lines of the file are the records, and the store is their replay;
* `OperationLog.rehydrate_exec` — a new process has the operations of the old one;
* `OperationLog.rehydrate_fails` — a text with a line separator, and an empty identifier.
-/

import Brokerage.Dict
import Brokerage.JsonText
import Brokerage.Transition

set_option relaxedAutoImplicit false
set_option autoImplicit false

/-- The text of an instant in ISO format. -/
structure IsoTime where
  text : String
  unbroken : JsonText.unbroken text = true
  deriving DecidableEq

/-- The record of an operation. -/
structure OperationRecord where
  operationId : String
  kind : String
  venue : String
  symbol : String
  positionId : String
  txHash : String
  status : String
  createdAt : String
  lastUpdate : String
  error : Option String
  deriving DecidableEq

/-- The operations in memory, and the text of the file if there is one. -/
structure OperationLog where
  store : Dict String OperationRecord
  file : Option (List Char)
  deriving DecidableEq

/-- A call of the service, with the time at which it is made. -/
inductive OperationCall
  | create (operationId kind venue symbol positionId : String) (now : IsoTime)
  | update (operationId status positionId txHash : String) (error : Option String) (now : IsoTime)
  deriving DecidableEq

/-- What `json.loads` makes of a line. -/
inductive LoadedLine
  /-- It raises `JSONDecodeError`. -/
  | invalid
  /-- A value that is not an object, which has no `get`. -/
  | notObject
  /-- An object without `operation_id`. -/
  | withoutId
  | record (op : OperationRecord)
  deriving DecidableEq

namespace OperationRecord

/-- A text of the record, or `null`. -/
def optional : Option String → JsonText.Scalar
  | none => .null
  | some s => .str s

/-- The members of the record in their order. -/
def members (op : OperationRecord) : List (String × JsonText.Scalar) :=
  [("operation_id", .str op.operationId), ("kind", .str op.kind), ("venue", .str op.venue),
    ("symbol", .str op.symbol), ("position_id", .str op.positionId), ("tx_hash", .str op.txHash),
    ("status", .str op.status), ("created_at", .str op.createdAt),
    ("last_update", .str op.lastUpdate), ("error", optional op.error)]

/-- The record as a line: `json.dumps(op, ensure_ascii=False)`. -/
def dumps (op : OperationRecord) : List Char := JsonText.dumpsObject op.members

/-- A record that is new. -/
def new (operationId kind venue symbol positionId : String) (now : IsoTime) : OperationRecord where
  operationId := operationId
  kind := kind
  venue := venue
  symbol := symbol
  positionId := positionId
  txHash := ""
  status := "in_progress"
  createdAt := now.text
  lastUpdate := now.text
  error := none

/-- A record with a new status; texts that are given replace those it has. -/
def updated (op : OperationRecord) (status positionId txHash : String) (error : Option String)
    (now : IsoTime) : OperationRecord :=
  { op with
    lastUpdate := now.text
    status := status
    positionId := if positionId = "" then op.positionId else positionId
    txHash := if txHash = "" then op.txHash else txHash
    error := error.or op.error }

end OperationRecord

namespace OperationLog

/-! ### Writing -/

/-- The number of lines that are read. -/
def OPERATIONS_REHYDRATE_MAX_LINES : ℕ := 5000

/-- A service without operations and without a file. -/
def init : OperationLog := ⟨Dict.empty, none⟩

/-- The text of the file; there is none before the first line. -/
def text (s : OperationLog) : List Char := s.file.getD []

/-- Appending a record to the file. -/
def append (s : OperationLog) (op : OperationRecord) : OperationLog :=
  { s with file := some (s.text ++ (op.dumps ++ ['\n'])) }

/-- Creating an operation. -/
def create (s : OperationLog) (operationId kind venue symbol positionId : String) (now : IsoTime) :
    OperationLog :=
  let op := OperationRecord.new operationId kind venue symbol positionId now
  { s with store := s.store.set operationId op }.append op

/-- Updating an operation, if there is one with the identifier. -/
def update (s : OperationLog) (operationId status positionId txHash : String)
    (error : Option String) (now : IsoTime) : OperationLog :=
  match s.store.get? operationId with
  | none => s
  | some op =>
      let op' := op.updated status positionId txHash error now
      { s with store := s.store.set operationId op' }.append op'

/-- A call of the service. -/
def call (s : OperationLog) : OperationCall → OperationLog
  | .create operationId kind venue symbol positionId now =>
      s.create operationId kind venue symbol positionId now
  | .update operationId status positionId txHash error now =>
      s.update operationId status positionId txHash error now

/-- A call as a step; every call is possible. -/
def step (s : OperationLog) (c : OperationCall) : Option OperationLog := some (s.call c)

/-! ### Reading -/

variable (loads : List Char → LoadedLine)

/-- The last lines of the file. -/
def tail (lines : List (List Char)) : List (List Char) :=
  lines.drop (lines.length - OPERATIONS_REHYDRATE_MAX_LINES)

/-- Reading lines into a store.  A value without `get` ends the reading; lines that are no JSON,
and records without an identifier, are skipped. -/
def replay (store : Dict String OperationRecord) : List (List Char) → Dict String OperationRecord
  | [] => store
  | line :: lines =>
      if Text.stripChars line = [] then replay store lines
      else
        match loads (Text.stripChars line) with
        | .invalid => replay store lines
        | .notObject => store
        | .withoutId => replay store lines
        | .record op =>
            replay (if op.operationId = "" then store else store.set op.operationId op) lines

/-- Reading the last lines of the file into the store, if there is a file. -/
def rehydrate (s : OperationLog) : OperationLog :=
  match s.file with
  | none => s
  | some text => { s with store := replay loads s.store (tail (Text.readLines text)) }

/-- The service of a new process, which has the file of the old one. -/
def restart (s : OperationLog) : OperationLog := rehydrate loads ⟨Dict.empty, s.file⟩

/-- Records are read back from their lines. -/
def RoundTrips : Prop := ∀ op : OperationRecord, loads op.dumps = .record op

/-! ### A reader of the lines that are written -/

/-- The text of a value. -/
def scalarText? : JsonText.Scalar → Option String
  | .str s => some s
  | .null => none

/-- The record with the given members, if they are those of a record in their order. -/
def ofMembers : List (String × JsonText.Scalar) → Option OperationRecord
  | [("operation_id", .str operationId), ("kind", .str kind), ("venue", .str venue),
      ("symbol", .str symbol), ("position_id", .str positionId), ("tx_hash", .str txHash),
      ("status", .str status), ("created_at", .str createdAt), ("last_update", .str lastUpdate),
      ("error", error)] =>
      some ⟨operationId, kind, venue, symbol, positionId, txHash, status, createdAt, lastUpdate,
        scalarText? error⟩
  | _ => none

/-- Reading a line that was written as a record. -/
def loadsRecord (line : List Char) : LoadedLine :=
  match JsonText.readObject line with
  | none => .invalid
  | some ms =>
      match ofMembers ms with
      | none => .withoutId
      | some op => .record op

theorem ofMembers_members (op : OperationRecord) : ofMembers op.members = some op := by
  have herror : scalarText? (OperationRecord.optional op.error) = op.error := by
    cases op.error <;> rfl
  simp only [OperationRecord.members, ofMembers, herror]

theorem roundTrips_loadsRecord : RoundTrips loadsRecord := by
  intro op
  rw [loadsRecord, OperationRecord.dumps, JsonText.readObject_dumpsObject]
  dsimp only
  rw [ofMembers_members]

/-! ### What is written -/

/-- A text that may be missing is unbroken. -/
def optionUnbroken : Option String → Bool
  | none => true
  | some s => JsonText.unbroken s

/-- The texts that a call writes are unbroken, and the identifier of a new operation is not empty.
The texts of an update of an unknown operation are not written. -/
def Writable (s : OperationLog) : OperationCall → Prop
  | .create operationId kind venue symbol positionId _ =>
      operationId ≠ "" ∧ JsonText.unbroken operationId = true ∧ JsonText.unbroken kind = true ∧
        JsonText.unbroken venue = true ∧ JsonText.unbroken symbol = true ∧
        JsonText.unbroken positionId = true
  | .update operationId status positionId txHash error _ =>
      s.store.contains operationId = true → JsonText.unbroken status = true ∧
        JsonText.unbroken positionId = true ∧ JsonText.unbroken txHash = true ∧
        optionUnbroken error = true

instance (s : OperationLog) (c : OperationCall) : Decidable (Writable s c) := by
  unfold Writable
  split <;> infer_instance

/-- A record that is read back: it has an identifier, and its texts are unbroken. -/
structure Legible (op : OperationRecord) : Prop where
  operationId : op.operationId ≠ ""
  members : JsonText.Unbroken op.members

theorem optional_unbroken (error : Option String) :
    (OperationRecord.optional error).unbroken = optionUnbroken error := by
  cases error <;> rfl

/-- The texts of a record. -/
theorem unbroken_members_iff (op : OperationRecord) :
    JsonText.Unbroken op.members ↔ JsonText.unbroken op.operationId = true ∧
      JsonText.unbroken op.kind = true ∧ JsonText.unbroken op.venue = true ∧
      JsonText.unbroken op.symbol = true ∧ JsonText.unbroken op.positionId = true ∧
      JsonText.unbroken op.txHash = true ∧ JsonText.unbroken op.status = true ∧
      JsonText.unbroken op.createdAt = true ∧ JsonText.unbroken op.lastUpdate = true ∧
      optionUnbroken op.error = true := by
  have hkeys : ∀ k ∈ ["operation_id", "kind", "venue", "symbol", "position_id", "tx_hash",
      "status", "created_at", "last_update", "error"], JsonText.unbroken k = true := by decide
  simp only [List.forall_mem_cons, List.not_mem_nil, false_implies, implies_true, and_true] at hkeys
  simp only [JsonText.Unbroken, OperationRecord.members, List.forall_mem_cons, List.not_mem_nil,
    false_implies, implies_true, hkeys, JsonText.unbroken_str, optional_unbroken, true_and, and_true]

/-- A record that is created is legible, if the call is writable. -/
theorem legible_new {s : OperationLog} {operationId kind venue symbol positionId : String}
    {now : IsoTime} (h : Writable s (.create operationId kind venue symbol positionId now)) :
    Legible (OperationRecord.new operationId kind venue symbol positionId now) := by
  obtain ⟨hne, hid, hkind, hvenue, hsymbol, hposition⟩ := h
  have hempty : JsonText.unbroken "" = true := by decide
  have hstatus : JsonText.unbroken "in_progress" = true := by decide
  exact ⟨hne, (unbroken_members_iff _).2 ⟨hid, hkind, hvenue, hsymbol, hposition, hempty, hstatus,
    now.unbroken, now.unbroken, rfl⟩⟩

/-- A record that is updated stays legible, if the call is writable. -/
theorem legible_updated {s : OperationLog} {op : OperationRecord} (hop : Legible op)
    {operationId status positionId txHash : String} {error : Option String} {now : IsoTime}
    (hstored : s.store.contains operationId = true)
    (h : Writable s (.update operationId status positionId txHash error now)) :
    Legible (op.updated status positionId txHash error now) := by
  obtain ⟨hstatus, hposition, htx, herror⟩ := h hstored
  obtain ⟨hid, hkind, hvenue, hsymbol, hposition', htx', -, hcreated, -, herror'⟩ :=
    (unbroken_members_iff op).1 hop.members
  refine ⟨hop.operationId, (unbroken_members_iff _).2 ⟨hid, hkind, hvenue, hsymbol, ?_, ?_, hstatus,
    hcreated, now.unbroken, ?_⟩⟩
  · simp only [OperationRecord.updated]
    split
    · exact hposition'
    · exact hposition
  · simp only [OperationRecord.updated]
    split
    · exact htx'
    · exact htx
  · cases error with
    | none => exact herror'
    | some text => exact herror

/-! ### The invariant -/

/-- A record under its identifier. -/
def entry (op : OperationRecord) : String × OperationRecord := (op.operationId, op)

/-- The records that were appended: the file has their lines, and the store is what they make. -/
structure Inv (s : OperationLog) (ops : List OperationRecord) : Prop where
  text : s.text = Text.unlines (ops.map OperationRecord.dumps)
  store : s.store = Dict.empty.setAll (ops.map entry)
  legible : ∀ op ∈ ops, Legible op

theorem inv_init : Inv init [] := ⟨rfl, rfl, fun _ hop => by cases hop⟩

/-- Storing and appending a record. -/
theorem Inv.append {s : OperationLog} {ops : List OperationRecord} (h : Inv s ops)
    {op : OperationRecord} (hop : Legible op) :
    Inv ({ s with store := s.store.set op.operationId op }.append op) (ops ++ [op]) where
  text := by
    have hold : ({ s with store := s.store.set op.operationId op } : OperationLog).text = s.text :=
      rfl
    rw [List.map_append, Text.unlines_append, ← h.text]
    simp [OperationLog.append, OperationLog.text]
  store := by
    rw [List.map_append, Dict.setAll, List.foldl_append]
    simp only [List.map_cons, List.map_nil, List.foldl_cons, List.foldl_nil, OperationLog.append,
      h.store, Dict.setAll, entry]
  legible op' hop' := by
    rcases List.mem_append.1 hop' with hop' | hop'
    · exact h.legible op' hop'
    · rw [List.mem_singleton.1 hop']
      exact hop

/-- What is stored was appended, under its identifier. -/
theorem Inv.mem_of_get? {s : OperationLog} {ops : List OperationRecord} (h : Inv s ops) {id : String}
    {op : OperationRecord} (hop : s.store.get? id = some op) : op ∈ ops ∧ op.operationId = id := by
  rw [h.store, Dict.get?_setAll, Dict.get?_empty, Option.or_none] at hop
  obtain ⟨l₁, l₂, heq, -⟩ := List.lookup_eq_some_iff.1 hop
  have hmem : (id, op) ∈ (ops.map entry).reverse := by
    rw [heq]
    exact List.mem_append_right _ List.mem_cons_self
  obtain ⟨op', hop', hentry⟩ := List.mem_map.1 (List.mem_reverse.1 hmem)
  obtain ⟨rfl, rfl⟩ := Prod.mk.inj hentry
  exact ⟨hop', rfl⟩

/-- Creating an operation writes its record. -/
theorem Inv.create {s : OperationLog} {ops : List OperationRecord} (h : Inv s ops)
    {operationId kind venue symbol positionId : String} {now : IsoTime}
    (hc : Writable s (.create operationId kind venue symbol positionId now)) :
    Inv (s.call (.create operationId kind venue symbol positionId now))
      (ops ++ [.new operationId kind venue symbol positionId now]) :=
  h.append (legible_new hc)

/-- Updating an operation writes its record. -/
theorem Inv.update {s : OperationLog} {ops : List OperationRecord} (h : Inv s ops)
    {operationId status positionId txHash : String} {error : Option String} {now : IsoTime}
    {op : OperationRecord} (hget : s.store.get? operationId = some op)
    (hc : Writable s (.update operationId status positionId txHash error now)) :
    Inv (s.call (.update operationId status positionId txHash error now))
      (ops ++ [op.updated status positionId txHash error now]) := by
  obtain ⟨hmem, hid⟩ := h.mem_of_get? hget
  have hstored : s.store.contains operationId = true := by rw [Dict.contains, hget]; rfl
  have hnew := h.append (legible_updated (h.legible op hmem) hstored hc)
  have hupdated : (op.updated status positionId txHash error now).operationId = operationId := hid
  rw [hupdated] at hnew
  rw [call, OperationLog.update, hget]
  exact hnew

/-- A writable call keeps the invariant. -/
theorem call_inv {s : OperationLog} {ops : List OperationRecord} (h : Inv s ops) {c : OperationCall}
    (hc : Writable s c) : ∃ ops', Inv (s.call c) ops' := by
  cases c with
  | create operationId kind venue symbol positionId now => exact ⟨_, h.create hc⟩
  | update operationId status positionId txHash error now =>
      cases hget : s.store.get? operationId with
      | none => exact ⟨ops, by rw [call, update, hget]; exact h⟩
      | some op => exact ⟨_, h.update hget hc⟩

/-- Every run of writable calls from the empty service satisfies the invariant. -/
theorem exec_inv {calls : List OperationCall} (hcalls : Transition.Meets step Writable init calls)
    {s : OperationLog} (h : Transition.exec step init calls = some s) : ∃ ops, Inv s ops := by
  refine Transition.exec_invariant_of_meets (I := fun s => ∃ ops, Inv s ops) ?_ ⟨[], inv_init⟩
    hcalls h
  rintro s c t ⟨ops, hops⟩ hc hstep
  obtain rfl : s.call c = t := Option.some.inj hstep
  exact call_inv hops hc

/-! ### Reading what was written -/

variable {loads}

/-- The lines of legible records are read into the store one after the other. -/
theorem replay_dumps (hloads : RoundTrips loads) {ops : List OperationRecord}
    (hops : ∀ op ∈ ops, Legible op) (store : Dict String OperationRecord) :
    replay loads store (ops.map OperationRecord.dumps) = store.setAll (ops.map entry) := by
  induction ops generalizing store with
  | nil => rfl
  | cons op ops ih =>
      have hop := hops op List.mem_cons_self
      have hline : Text.IsLine op.dumps := JsonText.isLine_dumpsObject hop.members
      rw [List.map_cons, replay, hline.stripChars, if_neg hline.ne_nil, hloads op]
      dsimp only
      rw [if_neg hop.operationId, ih fun op' hop' => hops op' (List.mem_cons_of_mem _ hop')]
      rfl

/-- The lines of the file are those of the records. -/
theorem Inv.readLines {s : OperationLog} {ops : List OperationRecord} (h : Inv s ops) :
    Text.readLines s.text = ops.map OperationRecord.dumps := by
  rw [h.text]
  refine Text.readLines_unlines fun line hline => ?_
  obtain ⟨op, hop, rfl⟩ := List.mem_map.1 hline
  exact JsonText.isLine_dumpsObject (h.legible op hop).members

/-- A file that does not exist is read like an empty one. -/
theorem store_rehydrate (s : OperationLog) :
    (rehydrate loads s).store = replay loads s.store (tail (Text.readLines s.text)) := by
  have hempty : tail (Text.readLines []) = [] := List.drop_nil
  rw [rehydrate, text]
  cases s.file with
  | none =>
      rw [Option.getD_none, hempty]
      rfl
  | some text => rw [Option.getD_some]

/-- A new process has the operations of the records in the last lines. -/
theorem Inv.restart {s : OperationLog} {ops : List OperationRecord} (h : Inv s ops)
    (hloads : RoundTrips loads) :
    (restart loads s).store = Dict.empty.setAll
      ((ops.drop (ops.length - OPERATIONS_REHYDRATE_MAX_LINES)).map entry) := by
  have htext : (⟨Dict.empty, s.file⟩ : OperationLog).text = s.text := rfl
  rw [OperationLog.restart, store_rehydrate, htext, h.readLines, tail, List.length_map,
    ← List.map_drop]
  exact replay_dumps hloads (fun op hop => h.legible op (List.mem_of_mem_drop hop)) _

/-- After every run of writable calls a new process has the operations of the old one, if the file
has not more lines than are read; and otherwise those with a record in the lines that are read. -/
theorem rehydrate_exec (hloads : RoundTrips loads) {calls : List OperationCall}
    (hcalls : Transition.Meets step Writable init calls) {s : OperationLog}
    (h : Transition.exec step init calls = some s) :
    ((Text.readLines s.text).length ≤ OPERATIONS_REHYDRATE_MAX_LINES →
        (restart loads s).store = s.store) ∧
      ∀ line ∈ tail (Text.readLines s.text), ∀ op, loads line = .record op →
        (restart loads s).store.get? op.operationId = s.store.get? op.operationId := by
  obtain ⟨ops, hinv⟩ := exec_inv hcalls h
  rw [hinv.restart hloads, hinv.readLines, hinv.store, tail, List.length_map, ← List.map_drop]
  -- the first `k` records are not read
  generalize hk : ops.length - OPERATIONS_REHYDRATE_MAX_LINES = k
  constructor
  · intro hle
    obtain rfl : k = 0 := by omega
    rw [List.drop_zero]
  · intro line hline op hop
    obtain ⟨op', hmem, rfl⟩ := List.mem_map.1 hline
    obtain rfl : op' = op := LoadedLine.record.inj ((hloads op').symm.trans hop)
    -- the last record of the operation is in the part that is read
    have hsplit : (ops.map entry).reverse =
        ((ops.drop k).map entry).reverse ++ ((ops.take k).map entry).reverse := by
      rw [← List.reverse_append, ← List.map_append, List.take_append_drop]
    have hsome : (((ops.drop k).map entry).reverse.lookup op'.operationId).isSome = true := by
      rw [← Option.ne_none_iff_isSome, Ne, List.lookup_eq_none_iff]
      intro hall
      have hentry := hall (entry op') (List.mem_reverse.2 (List.mem_map_of_mem hmem))
      simp [entry] at hentry
    obtain ⟨last, hlast⟩ := Option.isSome_iff_exists.1 hsome
    rw [Dict.get?_setAll, Dict.get?_setAll, hsplit, List.lookup_append, hlast]
    rfl

/-! ### Runs -/

/-- A time. -/
def noon : IsoTime := ⟨"2024-01-15T12:00:00+00:00", by decide⟩

/-- The service after some calls. -/
def runCalls (calls : List OperationCall) : Option OperationLog := Transition.exec step init calls

/-- An open that is confirmed, and an update of an operation that is not known. -/
def openAndConfirm : List OperationCall :=
  [.create "op1" "open" "paper" "BTC" "" noon,
    .update "op1" "confirmed" "paper:paper_a" "" none noon,
    .update "op2" "error" "" "" (some "no such operation") noon]

/-- An open with a line separator in its symbol. -/
def openSeparated : List OperationCall := [.create "op1" "open" "paper" "BTC\u2028" "" noon]

/-- An open without an identifier. -/
def openNameless : List OperationCall := [.create "" "open" "paper" "BTC" "" noon]

/-- The confirmed open is found by a new process. -/
theorem rehydrate_exec_confirmed :
    ∃ s, runCalls openAndConfirm = some s ∧ (restart loadsRecord s).store = s.store ∧
      (s.store.get? "op1").map OperationRecord.status = some "confirmed" := by
  have hrun : (runCalls openAndConfirm).map (fun s => ((Text.readLines s.text).length,
      (s.store.get? "op1").map OperationRecord.status)) = some (2, some "confirmed") := by
    decide +kernel
  obtain ⟨s, hs, hs'⟩ := Option.map_eq_some_iff.1 hrun
  obtain ⟨hlength, hstatus⟩ := Prod.mk.inj hs'
  refine ⟨s, hs, (rehydrate_exec roundTrips_loadsRecord (by decide) hs).1 ?_, hstatus⟩
  rw [hlength]
  decide

/-- The operation of an open with a line separator in its symbol, or without an identifier, is not
found by a new process. -/
theorem rehydrate_fails :
    (∃ s, runCalls openSeparated = some s ∧
      (Text.readLines s.text).length ≤ OPERATIONS_REHYDRATE_MAX_LINES ∧
      (s.store.get? "op1").isSome = true ∧ (restart loadsRecord s).store.get? "op1" = none) ∧
    ∃ s, runCalls openNameless = some s ∧
      (Text.readLines s.text).length ≤ OPERATIONS_REHYDRATE_MAX_LINES ∧
      (s.store.get? "").isSome = true ∧ (restart loadsRecord s).store.get? "" = none := by
  have hrun (calls : List OperationCall) (id : String) (n : ℕ)
      (hn : n ≤ OPERATIONS_REHYDRATE_MAX_LINES)
      (h : (runCalls calls).map (fun s => ((Text.readLines s.text).length,
        (s.store.get? id).isSome, (restart loadsRecord s).store.get? id)) = some (n, true, none)) :
      ∃ s, runCalls calls = some s ∧
        (Text.readLines s.text).length ≤ OPERATIONS_REHYDRATE_MAX_LINES ∧
        (s.store.get? id).isSome = true ∧ (restart loadsRecord s).store.get? id = none := by
    obtain ⟨s, hs, hs'⟩ := Option.map_eq_some_iff.1 h
    obtain ⟨hlength, hs''⟩ := Prod.mk.inj hs'
    obtain ⟨hstored, hlost⟩ := Prod.mk.inj hs''
    exact ⟨s, hs, hlength ▸ hn, hstored, hlost⟩
  exact ⟨hrun openSeparated "op1" 2 (by decide) (by decide +kernel),
    hrun openNameless "" 1 (by decide) (by decide +kernel)⟩

end OperationLog
