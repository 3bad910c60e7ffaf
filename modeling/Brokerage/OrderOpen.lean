/-
**Opening in the background, and the idempotency of opens.**

`fast_ack_open` answers a request at once with an operation, and opens in the background.  Three
things keep a client order id from being opened twice: a cache in memory, which gives a later
request the operation of the first one; the log of operations; and the file of the Ostium adapter,
which remembers the position that was opened for an id.  Between them stands the guard on
positions, which turns away an order for a symbol that has an open position, whether or not it is
the position of the same id.

A restart loses the tasks, the cache and the paper engine, and keeps the log and the file.  The
requests of this module all have one body; closes of any position may run beside them.

Main definitions:

* `OpenTask`, `OpenShared`, `OrderOpen.system` — the requests as a system of tasks with restarts;
* `OrderOpen.executions` — how often the venues executed an open for a client order id;
* `OrderOpen.Undisturbed` — the condition on the steps.

Main results:

* `OrderOpen.open_idempotent` — under the condition there is at most one execution, all confirmed
  operations agree, and no retry of an executed open ends in an error;
* `OrderOpen.retry_after_restart` — after a restart, a retry of an open position ends in an error.
-/

import Brokerage.OperationService
import Brokerage.TradingCalls

set_option relaxedAutoImplicit false
set_option autoImplicit false

/-- A request in progress: answered from the cache, or an open with its operation and background
task; or a close. -/
inductive OpenTask
  | answered (operationId : String)
  | openOrder (operationId : String) (body : OrderOpenRequest) (pc : OpenPc)
  | closeOrder (req : OrderCloseRequest) (pc : ClosePc)
  deriving DecidableEq

/-- What starts a request; an open has the identifier drawn for its operation. -/
inductive OpenRequest
  | openOrder (body : OrderOpenRequest) (operationId : String)
  | closeOrder (req : OrderCloseRequest)
  deriving DecidableEq

/-- What the requests share. -/
structure OpenShared where
  world : World
  operations : OperationService
  cache : Dict String String
  deriving DecidableEq

/-- How the process starts again: the balance and the slippage of the new paper engine. -/
structure Restart where
  initialBalance : ℚ
  slippageBps : ℚ
  deriving DecidableEq

namespace OrderOpen

variable (core : TradingCore)

/-! ### The service -/

/-- The operation that the cache has for a client order id, if it is still known. -/
def getCachedIdempotentResponse (s : OpenShared) (clientOrderId : String) : Option String :=
  if clientOrderId = "" then none
  else
    match s.cache.get? clientOrderId with
    | none => none
    | some operationId => if s.operations.has operationId then some operationId else none

/-- The client order id of a request, trimmed. -/
def strippedId (body : OrderOpenRequest) : String := Text.strip (body.clientOrderId.getD "")

/-- A request is answered from the cache, or an operation is created and its open scheduled. -/
def fastAckOpen (s : OpenShared) (body : OrderOpenRequest) (operationId : String) :
    OpenShared × OpenTask :=
  match getCachedIdempotentResponse s (strippedId body) with
  | some cached => (s, .answered cached)
  | none =>
      ({ s with
          operations := s.operations.create operationId .openOrder body.venue body.symbol ""
          cache := if strippedId body = "" then s.cache else s.cache.set (strippedId body) operationId },
        .openOrder operationId body .start)

/-- The error an operation is given for an exception: the one of the quality gate has a code. -/
def operationError : CoreError → OperationError
  | .dataQualityGateBad symbol reason =>
      ⟨some "DATA_QUALITY_GATE_BAD", .dataQualityGateBad symbol reason⟩
  | e => ⟨none, e⟩

/-- The operation, when the open is over. -/
def settle (operations : OperationService) (operationId : String) : OpenPc → OperationService
  | .done (.ok result) =>
      operations.update operationId .confirmed result.positionId result.txHash none
  | .done (.error e) => operations.update operationId .error "" "" (some (operationError e))
  | _ => operations

/-- One step of a request. -/
def resume (s : OpenShared) : OpenTask → Answer → Option (OpenShared × OpenTask)
  | .answered _, _ => none
  | .openOrder operationId body pc, a =>
      match core.openStep body s.world pc a with
      | none => none
      | some (world, pc') =>
          some ({ s with world, operations := settle s.operations operationId pc' },
            .openOrder operationId body pc')
  | .closeOrder req pc, a =>
      match core.closeStep req s.world pc a with
      | none => none
      | some (world, pc') => some ({ s with world }, .closeOrder req pc')

/-- The trades that are still there after a restart: a client for tests has them in memory. -/
def keptTrades (w : World) : Dict (ℕ × ℕ) OpenTradeInfo :=
  match w.ostium.client with
  | some .fakeOstiumClient => Dict.empty
  | _ => w.trades

/-- The process starts again. -/
def restart (s : OpenShared) (k : Restart) : OpenShared where
  world := { s.world with
    engine := PaperEngine.init k.initialBalance k.slippageBps
    trades := keptTrades s.world }
  operations := s.operations.restart
  cache := Dict.empty

/-- The requests, and the restarts of the process. -/
def system : TaskSystem OpenShared OpenTask OpenRequest Answer Restart where
  enter s r :=
    match r with
    | .openOrder body operationId => some (fastAckOpen s body operationId)
    | .closeOrder req => some (s, .closeOrder req .start)
  resume s t a := resume core s t a
  restart s k := some (restart s k)

/-! ### What is counted, and the condition -/

/-- The venue opened a position for the client order id. -/
def executes (clientOrderId : Option String) : VenueEvent → Bool
  | .executed _ request => request.clientOrderId = clientOrderId
  | _ => false

/-- How often the venues opened a position for the client order id. -/
def executions (clientOrderId : Option String) (w : World) : ℕ :=
  w.events.countP (executes clientOrderId)

/-- The task is over. -/
def finished : OpenTask → Bool
  | .openOrder _ _ (.done _) => true
  | .openOrder _ _ _ => false
  | _ => true

/-- The file of the adapter remembers a position for the client order id of the request. -/
def remembered (w : World) (body : OrderOpenRequest) : Bool :=
  (w.ostium.idempotent body.clientOrderId).isSome

/-- No line after the first `base` ones confirms an operation. -/
def noneConfirmed (base : ℕ) (operations : OperationService) : Bool :=
  (operations.log.drop base).all fun op => op.status ≠ .confirmed

/-- The guard on positions lets the order pass with what the adapter lists. -/
def guardPasses (w : World) (body : OrderOpenRequest) (venue : String) (adapter : AdapterId)
    (getOpenTrades : Except String (List OpenTradeInfo)) : Bool :=
  match w.getOpenPositions adapter getOpenTrades with
  | .ok positions => assertNoOpenPositionForSymbol positions body.symbol venue = .ok ()
  | .error _ => false

/-- The quality gate and the guard on positions let the order pass. -/
def passes (w : World) (body : OrderOpenRequest) : OpenPc → Answer → Bool
  | .start, .gate bad => core.hasReader = false ∨ bad = none
  | .listing venue adapter, .listing g => guardPasses w body venue adapter g
  | _, _ => true

/-- The requests to open all have one body. -/
def OneBody (body : OrderOpenRequest) : TaskLabel OpenRequest Answer Restart → Prop
  | .enter (.openOrder body' _) => body' = body
  | _ => True

instance (body : OrderOpenRequest) (l : TaskLabel OpenRequest Answer Restart) :
    Decidable (OneBody body l) := by
  unfold OneBody
  split <;> infer_instance

/-- A request that is not answered from the cache enters when no other one is in progress and
either the file remembers the id, or nothing was executed for it and no operation of it is
confirmed; and once the file remembers the id, the gate and the guard let every retry pass. -/
def Undisturbed (body : OrderOpenRequest) (base : ℕ) (p : TaskPool OpenShared OpenTask) :
    TaskLabel OpenRequest Answer Restart → Prop
  | .enter (.openOrder body' _) =>
      getCachedIdempotentResponse p.shared (strippedId body') = none →
        (∀ t ∈ p.tasks, finished t = true) ∧
          (remembered p.shared.world body = true ∨
            executions body.clientOrderId p.shared.world = 0 ∧
              noneConfirmed base p.shared.operations = true)
  | .resume i a =>
      match p.tasks[i]? with
      | some (.openOrder _ body' pc) =>
          remembered p.shared.world body = true → passes core p.shared.world body' pc a = true
      | _ => True
  | _ => True

instance (body : OrderOpenRequest) (base : ℕ) (p : TaskPool OpenShared OpenTask)
    (l : TaskLabel OpenRequest Answer Restart) : Decidable (Undisturbed core body base p l) := by
  unfold Undisturbed
  split
  · infer_instance
  · split <;> infer_instance
  · infer_instance

/-! ### The invariant -/

section

variable {core} {body : OrderOpenRequest} {base : ℕ}

/-- Every line after the first `base` ones that confirms an operation has the position. -/
def AllConfirmed (base : ℕ) (operations : OperationService) (positionId : String) : Prop :=
  ∀ op ∈ operations.log.drop base, op.status = .confirmed → op.positionId = positionId

/-- An identifier is the one that is returned for what the file remembers. -/
def IsReturned (core : TradingCore) (body : OrderOpenRequest) (remembered returned : String) :
    Prop :=
  ∃ venue, core.openTarget body = .ok (venue, .ostium) ∧
    returned = TradingCore.normalizePositionId venue remembered

/-- What holds of the shared state: at most one execution, one position in all confirmations, and
if the file remembers a position, it is that one. -/
structure SharedInv (core : TradingCore) (body : OrderOpenRequest) (base : ℕ) (s : OpenShared) :
    Prop where
  once : executions body.clientOrderId s.world ≤ 1
  lines : base ≤ s.operations.log.length
  agree : ∃ positionId, AllConfirmed base s.operations positionId
  file : ∀ pid, s.world.ostium.idempotent body.clientOrderId = some pid →
    s.world.ostium.client ≠ none ∧
      ∃ returned, IsReturned core body pid returned ∧ AllConfirmed base s.operations returned

/-- An order past the guard is at an adapter that is started. -/
def AtAdapter (core : TradingCore) (body : OrderOpenRequest) (w : World) (venue : String)
    (adapter : AdapterId) : Prop :=
  core.openTarget body = .ok (venue, adapter) ∧ (adapter = .ostium → w.ostium.client ≠ none)

/-- Where an open is before the venue executes it. -/
def BeforeVenue (core : TradingCore) (body : OrderOpenRequest) (w : World) : OpenPc → Prop
  | .start => True
  | .listing venue adapter => core.openTarget body = .ok (venue, adapter)
  | .listed venue adapter _ => core.openTarget body = .ok (venue, adapter)
  | .pricing venue adapter => AtAdapter core body w venue adapter
  | .trading venue adapter _ => AtAdapter core body w venue adapter
  | _ => False

/-- Where an open is after the venue, and before it is over. -/
def AfterVenue (core : TradingCore) (body : OrderOpenRequest) (w : World) : OpenPc → Prop
  | .traded venue adapter _ => AtAdapter core body w venue adapter
  | .reconciling _ => True
  | _ => False

/-- Where a retry is, when the file remembers a position. -/
def Replays (core : TradingCore) (body : OrderOpenRequest) (pid : String) : OpenPc → Prop
  | .start => True
  | .listing venue adapter => core.openTarget body = .ok (venue, adapter)
  | .listed venue adapter positions => core.openTarget body = .ok (venue, adapter) ∧
      assertNoOpenPositionForSymbol positions body.symbol venue = .ok ()
  | .reconciling result => IsReturned core body pid result.positionId
  | _ => False

/-- How far an open that is not over has come: the venue has executed nothing, or it is past the
venue and the file does not remember it, or it repeats what the file remembers. -/
inductive Stage (core : TradingCore) (body : OrderOpenRequest) (base : ℕ) (s : OpenShared) :
    OpenPc → Prop
  | before (pc) (hpc : BeforeVenue core body s.world pc)
      (hnew : executions body.clientOrderId s.world = 0)
      (hfile : s.world.ostium.idempotent body.clientOrderId = none)
      (hnone : noneConfirmed base s.operations = true) : Stage core body base s pc
  | after (pc) (hpc : AfterVenue core body s.world pc)
      (hfile : s.world.ostium.idempotent body.clientOrderId = none)
      (hnone : noneConfirmed base s.operations = true) : Stage core body base s pc
  | replay (pc) (pid) (hfile : s.world.ostium.idempotent body.clientOrderId = some pid)
      (hpc : Replays core body pid pc) : Stage core body base s pc

/-- What holds of a task: an open that is not over has an operation without a position, and has
come as far as one of the stages says. -/
def TaskInv (core : TradingCore) (body : OrderOpenRequest) (base : ℕ) (s : OpenShared)
    (t : OpenTask) : Prop :=
  ∀ operationId body' pc, t = .openOrder operationId body' pc → body' = body ∧
    (finished t = false →
      (∃ op, s.operations.store.get? operationId = some op ∧ op.positionId = "") ∧
        Stage core body base s pc)

/-- Two tasks are not both in progress. -/
def Apart (t u : OpenTask) : Prop := finished t = true ∨ finished u = true

/-! ### Lines of the log -/

theorem mem_drop_append {l l' : List Operation} (hbase : base ≤ l.length) {op : Operation} :
    op ∈ (l ++ l').drop base ↔ op ∈ l.drop base ∨ op ∈ l' := by
  rw [List.drop_append_of_le_length hbase, List.mem_append]

theorem AllConfirmed.of_noneConfirmed {operations : OperationService}
    (h : noneConfirmed base operations = true) (positionId : String) :
    AllConfirmed base operations positionId := by
  intro op hop hconfirmed
  have hall := List.all_eq_true.1 h op hop
  simp [hconfirmed] at hall

/-- A line that confirms nothing changes nothing. -/
theorem AllConfirmed.append {operations operations' : OperationService} {positionId : String}
    (h : AllConfirmed base operations positionId) (hbase : base ≤ operations.log.length)
    {lines : List Operation} (hlog : operations'.log = operations.log ++ lines)
    (hlines : ∀ op ∈ lines, op.status = .confirmed → op.positionId = positionId) :
    AllConfirmed base operations' positionId := by
  intro op hop hconfirmed
  rw [hlog, mem_drop_append hbase] at hop
  rcases hop with hold | hnew
  · exact h op hold hconfirmed
  · exact hlines op hnew hconfirmed

theorem noneConfirmed_append {operations operations' : OperationService}
    (h : noneConfirmed base operations = true) (hbase : base ≤ operations.log.length)
    {lines : List Operation} (hlog : operations'.log = operations.log ++ lines)
    (hlines : ∀ op ∈ lines, op.status ≠ .confirmed) : noneConfirmed base operations' = true := by
  refine List.all_eq_true.2 fun op hop => ?_
  rw [hlog, mem_drop_append hbase] at hop
  rcases hop with hold | hnew
  · exact List.all_eq_true.1 h op hold
  · simpa using hlines op hnew

/-! ### The end of an open -/

theorem settle_of_not_finished {operations : OperationService} {operationId : String} {pc : OpenPc}
    (h : finished (.openOrder operationId body pc) = false) :
    settle operations operationId pc = operations := by
  cases pc with
  | done outcome => cases h
  | _ => rfl

/-- The line that an open writes when it is over. -/
theorem log_settle_ok {operations : OperationService} {operationId : String} {op : Operation}
    (hop : operations.store.get? operationId = some op) (hid : op.positionId = "")
    (result : OrderOpenResult) :
    ∃ line, (settle operations operationId (.done (.ok result))).log = operations.log ++ [line] ∧
      line.status = .confirmed ∧ line.positionId = result.positionId := by
  refine ⟨op.updated .confirmed result.positionId result.txHash none, ?_, rfl, ?_⟩
  · rw [settle, OperationService.log_update, hop]
    rfl
  · simp only [Operation.updated, hid]
    split
    · exact Eq.symm ‹_›
    · rfl

theorem log_settle_error (operations : OperationService) (operationId : String) (e : CoreError) :
    ∃ lines, (settle operations operationId (.done (.error e))).log = operations.log ++ lines ∧
      ∀ line ∈ lines, line.status = .error := by
  refine ⟨_, OperationService.log_update .., fun line hline => ?_⟩
  obtain ⟨op, -, rfl⟩ := Option.mem_toList.1 hline |> Option.map_eq_some_iff.1
  rfl

/-! ### The steps of an open -/

theorem executions_log (w : World) (events : List VenueEvent) :
    executions body.clientOrderId (w.log events) =
      executions body.clientOrderId w + events.countP (executes body.clientOrderId) := by
  rw [executions, World.log_events, List.countP_append]
  rfl

/-- The paper engine executes an open at most once. -/
theorem executions_paperOpen_le (w : World) (req : OrderOpenRequest) (mid : ℚ) (now : String)
    (timestamp : ℚ) (uuid : String) :
    executions body.clientOrderId (w.paperOpen req mid now timestamp uuid).2 ≤
      executions body.clientOrderId w + 1 := by
  rw [executions, World.paperOpen_events, List.countP_append, executions]
  split
  · simpa using List.countP_le_length (p := executes body.clientOrderId)
      (l := [VenueEvent.executed .paper req])
  · simp

/-- The Ostium client executes an open at most once. -/
theorem executions_ostiumOpen_le (w : World) (req : OrderOpenRequest) (mid : ℚ)
    (answer : OpenTradeAnswer) :
    executions body.clientOrderId (w.ostiumOpen req mid answer).2 ≤
      executions body.clientOrderId w + 1 := by
  have hevents : ∃ events, (w.ostiumOpen req mid answer).2.events = w.events ++ events ∧
      events.countP (executes body.clientOrderId) ≤ 1 := by
    cases answer with
    | fails text => exact ⟨_, rfl, by simp [executes]⟩
    | opened slot receipt => exact ⟨_, rfl, by simp [List.countP_cons, executes]; split <;> simp⟩
    | lost slot text => exact ⟨_, rfl, by simp [List.countP_cons, executes]; split <;> simp⟩
  obtain ⟨events, heq, hle⟩ := hevents
  rw [executions, heq, List.countP_append, executions]
  omega

/-- A step before the venue: the open fails, or goes on, or reaches the venue. -/
theorem before_step {w w' : World} {pc pc' : OpenPc} {a : Answer}
    (hpc : BeforeVenue core body w pc) (hfile : w.ostium.idempotent body.clientOrderId = none)
    (hnew : executions body.clientOrderId w = 0)
    (h : TradingCore.OpenStep core body w pc a w' pc') :
    w'.ostium = w.ostium ∧
      ((∃ e, pc' = .done (.error e)) ∧ executions body.clientOrderId w' = 0 ∨
        BeforeVenue core body w' pc' ∧ executions body.clientOrderId w' = 0 ∨
        AfterVenue core body w' pc' ∧ executions body.clientOrderId w' ≤ 1) := by
  cases h with
  | gate bad =>
      refine ⟨rfl, ?_⟩
      unfold TradingCore.afterGate
      split
      · exact Or.inl ⟨⟨_, rfl⟩, hnew⟩
      · split
        · exact Or.inl ⟨⟨_, rfl⟩, hnew⟩
        · exact Or.inr (Or.inl ⟨‹_›, hnew⟩)
  | listingFails g hg => exact ⟨rfl, Or.inl ⟨⟨_, rfl⟩, hnew⟩⟩
  | listing g hg => exact ⟨rfl, Or.inr (Or.inl ⟨hpc, hnew⟩)⟩
  | guard venue adapter positions =>
      unfold TradingCore.afterGuard
      split
      · exact ⟨rfl, Or.inl ⟨⟨_, rfl⟩, hnew⟩⟩
      · -- asking the venue is logged, but executes nothing yet
        have hlogged : executions body.clientOrderId
            (w.log [.openPosition adapter (w.isReal adapter) body]) = 0 := by
          rw [executions_log, hnew]
          rfl
        refine ⟨?_, ?_⟩ <;> dsimp only <;> split
        · rfl
        · rfl
        · rfl
        · exact Or.inl ⟨⟨_, rfl⟩, hlogged⟩
        · rename_i result hstart
          obtain ⟨-, -, hidempotent, -⟩ := TradingCore.openPositionStart_eq_some hstart
          cases hfile.symm.trans hidempotent
        · rename_i hstart
          refine Or.inr (Or.inl ⟨⟨hpc, ?_⟩, hlogged⟩)
          rintro rfl
          exact (TradingCore.openPositionStart_eq_none hstart).1
  | price venue adapter mid =>
      refine ⟨rfl, ?_⟩
      unfold TradingCore.afterPrice
      split
      · exact Or.inl ⟨⟨_, rfl⟩, hnew⟩
      · split
        · exact Or.inr (Or.inr ⟨hpc, hnew.le.trans (by decide)⟩)
        · exact Or.inr (Or.inl ⟨hpc, hnew⟩)
      · exact Or.inl ⟨⟨_, rfl⟩, hnew⟩
      · split
        · exact Or.inl ⟨⟨_, rfl⟩, hnew⟩
        · exact Or.inr (Or.inl ⟨hpc, hnew⟩)
  | paperOpen venue mid now timestamp uuid =>
      refine ⟨World.paperOpen_ostium .., Or.inr (Or.inr ⟨⟨hpc.1, fun h => by cases h⟩, ?_⟩)⟩
      exact (executions_paperOpen_le ..).trans (by rw [hnew])
  | ostiumOpen venue mid answer =>
      refine ⟨World.ostiumOpen_ostium .., Or.inr (Or.inr ⟨⟨hpc.1, fun h => ?_⟩, ?_⟩)⟩
      · rw [World.ostiumOpen_ostium]
        exact hpc.2 h
      · exact (executions_ostiumOpen_le ..).trans (by rw [hnew])
  | save venue adapter result => exact hpc.elim
  | reconciled result g => exact hpc.elim

/-- A step after the venue: the open is over, or the file now remembers what it has opened. -/
theorem after_step {w w' : World} {pc pc' : OpenPc} {a : Answer} (hpc : AfterVenue core body w pc)
    (hfile : w.ostium.idempotent body.clientOrderId = none)
    (h : TradingCore.OpenStep core body w pc a w' pc') :
    executions body.clientOrderId w' = executions body.clientOrderId w ∧
      ((∃ result, pc' = .done (.ok result) ∧ w' = w) ∨
        (∃ result, pc' = .reconciling result) ∧
          w'.ostium.idempotent body.clientOrderId = none ∨
        ∃ result pid, pc' = .reconciling result ∧
          w'.ostium.idempotent body.clientOrderId = some pid ∧ w'.ostium.client ≠ none ∧
          IsReturned core body pid result.positionId) := by
  cases h with
  | save venue adapter result =>
      refine ⟨by rw [executions, World.saveIdempotent_events, executions], ?_⟩
      unfold World.saveIdempotent
      split
      · rename_i cid hcid
        split
        · rename_i hsave
          refine Or.inr (Or.inr ⟨_, result.positionId, rfl, ?_, hpc.2 rfl, venue, hpc.1, rfl⟩)
          rw [hcid]
          exact OstiumAdapter.idempotent_save hsave.1 _ _
        · exact Or.inr (Or.inl ⟨⟨_, rfl⟩, hfile⟩)
      · exact Or.inr (Or.inl ⟨⟨_, rfl⟩, hfile⟩)
  | reconciled result g => exact ⟨rfl, Or.inl ⟨result, rfl, rfl⟩⟩
  | _ => exact hpc.elim

/-- A step of a retry whose position the file remembers, if the gate and the guard let it pass. -/
theorem replay_step {w w' : World} {pc pc' : OpenPc} {a : Answer} {pid returned : String}
    (hfile : w.ostium.idempotent body.clientOrderId = some pid) (hclient : w.ostium.client ≠ none)
    (hreturned : IsReturned core body pid returned) (hpc : Replays core body pid pc)
    (hpasses : passes core w body pc a = true)
    (h : TradingCore.OpenStep core body w pc a w' pc') :
    w'.ostium = w.ostium ∧ executions body.clientOrderId w' = executions body.clientOrderId w ∧
      (Replays core body pid pc' ∨
        ∃ result, pc' = .done (.ok result) ∧ IsReturned core body pid result.positionId) := by
  obtain ⟨venue, htarget, -⟩ := hreturned
  cases h with
  | gate bad =>
      refine ⟨rfl, rfl, Or.inl ?_⟩
      -- a replay that passes the gate reaches the same adapter again
      have hgate : (if core.hasReader then bad else none) = none := by
        have hpass : core.hasReader = false ∨ bad = none := by simpa [passes] using hpasses
        rcases hpass with hreader | hbad
        · rw [hreader]
          rfl
        · rw [hbad, ite_self]
      simp only [TradingCore.afterGate, hgate, htarget]
      exact htarget
  | listingFails g hg =>
      rw [passes, guardPasses, hg] at hpasses
      cases hpasses
  | listing g hg =>
      refine ⟨rfl, rfl, Or.inl ⟨hpc, ?_⟩⟩
      rw [passes, guardPasses, hg] at hpasses
      simpa using hpasses
  | guard venue' adapter positions =>
      obtain ⟨htarget', hpass⟩ := hpc
      obtain ⟨rfl, rfl⟩ := Prod.mk.inj (Except.ok.inj (htarget.symm.trans htarget'))
      have hlogged : executions body.clientOrderId
          (w.log [.openPosition .ostium (w.isReal .ostium) body]) =
            executions body.clientOrderId w := by
        rw [executions_log]
        rfl
      -- the file answers before the client is asked
      have hstart : w.openPositionStart .ostium body = .ok (some ⟨true, pid, some "", some 0, some 0,
          none, none, none, none, none, none, none, none⟩) := by
        obtain ⟨client, hsome⟩ := Option.ne_none_iff_exists'.1 hclient
        simp only [World.openPositionStart, hsome, hfile]
      simp only [TradingCore.afterGuard, hpass, hstart]
      exact ⟨rfl, hlogged, Or.inl ⟨venue, htarget, rfl⟩⟩
  | price => exact hpc.elim
  | paperOpen => exact hpc.elim
  | ostiumOpen => exact hpc.elim
  | save => exact hpc.elim
  | reconciled result g => exact ⟨rfl, rfl, Or.inr ⟨result, rfl, hpc⟩⟩

/-! ### What a step of an open keeps -/

theorem IsReturned.unique {pid returned returned' : String} (h : IsReturned core body pid returned)
    (h' : IsReturned core body pid returned') : returned = returned' := by
  obtain ⟨venue, htarget, rfl⟩ := h
  obtain ⟨venue', htarget', rfl⟩ := h'
  rw [(Prod.mk.inj (Except.ok.inj (htarget.symm.trans htarget'))).1]

theorem BeforeVenue.finished_eq_false {w : World} {pc : OpenPc} (h : BeforeVenue core body w pc)
    (operationId : String) : finished (.openOrder operationId body pc) = false := by
  cases pc with
  | done outcome => exact h.elim
  | _ => rfl

theorem AfterVenue.finished_eq_false {w : World} {pc : OpenPc} (h : AfterVenue core body w pc)
    (operationId : String) : finished (.openOrder operationId body pc) = false := by
  cases pc with
  | done outcome => exact h.elim
  | _ => rfl

theorem Replays.finished_eq_false {pid : String} {pc : OpenPc} (h : Replays core body pid pc)
    (operationId : String) : finished (.openOrder operationId body pc) = false := by
  cases pc with
  | done outcome => exact h.elim
  | _ => rfl

/-- What a step of an open leads to: the invariant holds, an open that is not over has come to a
stage, and no error is written once the venue has executed an open. -/
structure Advances (core : TradingCore) (body : OrderOpenRequest) (base : ℕ) (s s' : OpenShared)
    (operationId : String) (pc : OpenPc) : Prop where
  shared : SharedInv core body base s'
  stage : finished (.openOrder operationId body pc) = false →
    (∃ op, s'.operations.store.get? operationId = some op ∧ op.positionId = "") ∧
      Stage core body base s' pc
  log : ∃ lines, s'.operations.log = s.operations.log ++ lines ∧
    (executions body.clientOrderId s.world = 0 ∨ ∀ op ∈ lines, op.status ≠ .error)
  mono : executions body.clientOrderId s.world ≤ executions body.clientOrderId s'.world

variable {s : OpenShared} {w' : World} {operationId : String} {pc' : OpenPc}

/-- The invariant of the shared state is about the file, the executions and the operations. -/
theorem SharedInv.of_ostium (hs : SharedInv core body base s) (hostium : w'.ostium = s.world.ostium)
    (honce : executions body.clientOrderId w' ≤ 1) :
    SharedInv core body base { s with world := w' } where
  once := honce
  lines := hs.lines
  agree := hs.agree
  file pid hpid := by
    dsimp only at hpid ⊢
    rw [hostium] at hpid ⊢
    exact hs.file pid hpid

/-- The open goes on: the operations are as before. -/
theorem Advances.of_not_finished (hfinished : finished (.openOrder operationId body pc') = false)
    (hop : ∃ op, s.operations.store.get? operationId = some op ∧ op.positionId = "")
    (hshared : SharedInv core body base { s with world := w' })
    (hstage : Stage core body base { s with world := w' } pc')
    (hmono : executions body.clientOrderId s.world ≤ executions body.clientOrderId w') :
    Advances core body base s
      { s with world := w', operations := settle s.operations operationId pc' } operationId pc' := by
  rw [settle_of_not_finished hfinished]
  exact ⟨hshared, fun _ => ⟨hop, hstage⟩, ⟨[], by simp⟩, hmono⟩

/-- The open raises before the venue has executed anything. -/
theorem Advances.of_error (hs : SharedInv core body base s) {e : CoreError}
    (hnone : noneConfirmed base s.operations = true)
    (hnew : executions body.clientOrderId s.world = 0)
    (hnew' : executions body.clientOrderId w' = 0)
    (hfile : w'.ostium.idempotent body.clientOrderId = none) :
    Advances core body base s
      { s with world := w', operations := settle s.operations operationId (.done (.error e)) }
      operationId (.done (.error e)) := by
  obtain ⟨lines, hlog, hlines⟩ := log_settle_error s.operations operationId e
  have hnone' := noneConfirmed_append hnone hs.lines hlog fun op hop => by
    rw [hlines op hop]
    decide
  refine ⟨⟨hnew'.le.trans (by decide), ?_, ⟨"", .of_noneConfirmed hnone' _⟩, fun pid hpid => ?_⟩,
    fun hf => (by cases hf), ⟨lines, hlog, Or.inl hnew⟩, by rw [hnew]; exact Nat.zero_le _⟩
  · rw [hlog, List.length_append]
    exact hs.lines.trans (Nat.le_add_right _ _)
  · cases hfile.symm.trans hpid

/-- The open returns: the operation is confirmed. -/
theorem Advances.of_ok (hs : SharedInv core body base s)
    (hop : ∃ op, s.operations.store.get? operationId = some op ∧ op.positionId = "")
    {result : OrderOpenResult} (hostium : w'.ostium = s.world.ostium)
    (hsame : executions body.clientOrderId w' = executions body.clientOrderId s.world)
    (hconfirmed : AllConfirmed base s.operations result.positionId)
    (hfile : ∀ pid, s.world.ostium.idempotent body.clientOrderId = some pid →
      IsReturned core body pid result.positionId) :
    Advances core body base s
      { s with world := w', operations := settle s.operations operationId (.done (.ok result)) }
      operationId (.done (.ok result)) := by
  obtain ⟨op, hget, hid⟩ := hop
  obtain ⟨line, hlog, hstatus, hposition⟩ := log_settle_ok hget hid result
  have hconfirmed' := hconfirmed.append hs.lines hlog fun op hmem _ => by
    rw [List.mem_singleton.1 hmem, hposition]
  refine ⟨⟨hsame ▸ hs.once, ?_, ⟨_, hconfirmed'⟩, fun pid hpid => ?_⟩, fun hf => (by cases hf),
    ⟨[line], hlog, Or.inr fun op hmem => ?_⟩, hsame.ge⟩
  · rw [hlog, List.length_append]
    exact hs.lines.trans (Nat.le_add_right _ _)
  · dsimp only at hpid ⊢
    rw [hostium] at hpid ⊢
    exact ⟨(hs.file pid hpid).1, _, hfile pid hpid, hconfirmed'⟩
  · rw [List.mem_singleton.1 hmem, hstatus]
    decide

/-- A step of an open that is not over. -/
theorem openStep_advances {pc : OpenPc} {a : Answer} (hs : SharedInv core body base s)
    (hstage : Stage core body base s pc)
    (hop : ∃ op, s.operations.store.get? operationId = some op ∧ op.positionId = "")
    (hpasses : remembered s.world body = true → passes core s.world body pc a = true)
    (h : TradingCore.OpenStep core body s.world pc a w' pc') :
    Advances core body base s
      { s with world := w', operations := settle s.operations operationId pc' } operationId pc' := by
  cases hstage with
  | before hpc hnew hfile hnone =>
      obtain ⟨hostium, ⟨⟨e, rfl⟩, hnew'⟩ | ⟨hpc', hnew'⟩ | ⟨hpc', honce⟩⟩ :=
        before_step hpc hfile hnew h
      · exact .of_error hs hnone hnew hnew' (hostium ▸ hfile)
      · exact .of_not_finished (hpc'.finished_eq_false _) hop
          (hs.of_ostium hostium (hnew'.le.trans (by decide)))
          (.before pc' hpc' hnew' (hostium ▸ hfile) hnone) (by rw [hnew]; exact Nat.zero_le _)
      · exact .of_not_finished (hpc'.finished_eq_false _) hop (hs.of_ostium hostium honce)
          (.after pc' hpc' (hostium ▸ hfile) hnone) (by rw [hnew]; exact Nat.zero_le _)
  | after hpc hfile hnone =>
      obtain ⟨hsame, ⟨result, rfl, rfl⟩ | ⟨⟨result, rfl⟩, hfile'⟩ |
        ⟨result, pid, rfl, hfile', hclient, hreturned⟩⟩ := after_step hpc hfile h
      · refine .of_ok hs hop rfl rfl (.of_noneConfirmed hnone _) fun pid hpid => ?_
        cases hfile.symm.trans hpid
      · refine .of_not_finished rfl hop ⟨hsame ▸ hs.once, hs.lines, hs.agree, fun pid hpid => ?_⟩
          (.after _ trivial hfile' hnone) hsame.ge
        cases hfile'.symm.trans hpid
      · refine .of_not_finished rfl hop ⟨hsame ▸ hs.once, hs.lines, hs.agree, fun pid' hpid => ?_⟩
          (.replay _ pid hfile' hreturned) hsame.ge
        obtain rfl := Option.some.inj (hfile'.symm.trans hpid)
        exact ⟨hclient, _, hreturned, .of_noneConfirmed hnone _⟩
  | replay pid hfile hpc =>
      obtain ⟨hclient, returned, hreturned, hconfirmed⟩ := hs.file pid hfile
      obtain ⟨hostium, hsame, hpc' | ⟨result, rfl, hresult⟩⟩ :=
        replay_step hfile hclient hreturned hpc (hpasses (by rw [remembered, hfile]; rfl)) h
      · exact .of_not_finished (hpc'.finished_eq_false _) hop
          (hs.of_ostium hostium (hsame ▸ hs.once)) (.replay pc' pid (hostium ▸ hfile) hpc') hsame.ge
      · refine .of_ok hs hop hostium hsame ?_ fun pid' hpid' => ?_
        · rwa [hresult.unique hreturned]
        · obtain rfl := Option.some.inj (hfile.symm.trans hpid')
          exact hresult

/-! ### What a step of the pool keeps -/

/-- The invariant of the pool. -/
abbrev PoolInv (core : TradingCore) (body : OrderOpenRequest) (base : ℕ) :
    TaskPool OpenShared OpenTask → Prop :=
  TaskPool.Inv (SharedInv core body base) (TaskInv core body base) Apart

theorem Apart.symm {t u : OpenTask} (h : Apart t u) : Apart u t := Or.symm h

/-- A step that leaves the file, the executions and the operations alone keeps a stage. -/
theorem Stage.of_ostium {pc : OpenPc} (h : Stage core body base s pc)
    (hostium : w'.ostium = s.world.ostium)
    (hsame : executions body.clientOrderId w' = executions body.clientOrderId s.world) :
    Stage core body base { s with world := w' } pc := by
  cases h with
  | before hpc hnew hfile hnone =>
      refine .before pc ?_ (hsame.trans hnew) (hostium ▸ hfile) hnone
      cases pc with
      | pricing venue adapter => exact ⟨hpc.1, hostium ▸ hpc.2⟩
      | trading venue adapter mid => exact ⟨hpc.1, hostium ▸ hpc.2⟩
      | _ => exact hpc
  | after hpc hfile hnone =>
      refine .after pc ?_ (hostium ▸ hfile) hnone
      cases pc with
      | traded venue adapter result => exact ⟨hpc.1, hostium ▸ hpc.2⟩
      | _ => exact hpc
  | replay pid hfile hpc => exact .replay pc pid (hostium ▸ hfile) hpc

variable (body) in
/-- A close leaves the file and the executions alone. -/
theorem closeStep_ostium {req : OrderCloseRequest} {w w' : World} {pc pc' : ClosePc} {a : Answer}
    (h : core.closeStep req w pc a = some (w', pc')) :
    w'.ostium = w.ostium ∧
      executions body.clientOrderId w' = executions body.clientOrderId w := by
  rcases TradingCore.closeStep_world h with rfl | ⟨id, mid, ts, rfl⟩ | ⟨pairId, tradeIndex, rfl⟩
  · exact ⟨rfl, rfl⟩
  · exact ⟨rfl, rfl⟩
  · refine ⟨?_, by rw [executions, World.closeTrade_events, executions]⟩
    unfold World.closeTrade
    split <;> rfl

/-- A new operation confirms nothing. -/
theorem SharedInv.create (hs : SharedInv core body base s) (operationId venue symbol : String)
    (cache : Dict String String) :
    SharedInv core body base { s with
      operations := s.operations.create operationId .openOrder venue symbol ""
      cache := cache } := by
  have hlog : ∀ op ∈ [({ operationId, kind := .openOrder, venue, symbol, positionId := "" } :
      Operation)], op.status = .confirmed → ∀ pid, op.positionId = pid := by
    intro op hop hconfirmed
    rw [List.mem_singleton.1 hop] at hconfirmed
    cases hconfirmed
  refine ⟨hs.once, ?_, ?_, fun pid hpid => ?_⟩
  · exact hs.lines.trans (by simp [OperationService.create])
  · obtain ⟨pid, hagree⟩ := hs.agree
    exact ⟨pid, hagree.append hs.lines rfl fun op hop hconfirmed => hlog op hop hconfirmed pid⟩
  · obtain ⟨hclient, returned, hreturned, hagree⟩ := hs.file pid hpid
    exact ⟨hclient, returned, hreturned,
      hagree.append hs.lines rfl fun op hop hconfirmed => hlog op hop hconfirmed returned⟩

theorem noneConfirmed_create {operations : OperationService}
    (h : noneConfirmed base operations = true) (hbase : base ≤ operations.log.length)
    (operationId venue symbol : String) :
    noneConfirmed base (operations.create operationId .openOrder venue symbol "") = true := by
  refine noneConfirmed_append h hbase rfl fun op hop => ?_
  rw [List.mem_singleton.1 hop]
  exact nofun

/-- A request to open enters. -/
theorem poolInv_open {p : TaskPool OpenShared OpenTask} (hp : PoolInv core body base p)
    {operationId : String} {s' : OpenShared} {t : OpenTask}
    (hcond : Undisturbed core body base p (.enter (.openOrder body operationId)))
    (h : fastAckOpen p.shared body operationId = (s', t)) :
    SharedInv core body base s' ∧ TaskInv core body base s' t ∧
      ∀ u ∈ p.tasks, TaskInv core body base s' u ∧ Apart t u := by
  unfold fastAckOpen at h
  split at h
  · cases h
    exact ⟨hp.shared, fun _ _ _ ht => (by cases ht), fun u hu => ⟨hp.mem hu, Or.inl rfl⟩⟩
  · rename_i hcached
    cases h
    obtain ⟨hidle, hcond⟩ := hcond hcached
    refine ⟨hp.shared.create _ _ _ _, ?_, fun u hu => ⟨?_, Or.inr (hidle u hu)⟩⟩
    · rintro _ _ _ ht
      cases ht
      refine ⟨rfl, fun _ => ⟨⟨_, Dict.get?_set_self _ _ _, rfl⟩, ?_⟩⟩
      -- the file decides which stage the new open is in
      cases hfile : p.shared.world.ostium.idempotent body.clientOrderId with
      | some pid => exact .replay _ pid hfile trivial
      | none =>
          rcases hcond with hremembered | ⟨hnew, hnone⟩
          · rw [remembered, hfile] at hremembered
            cases hremembered
          · exact .before _ trivial hnew hfile (noneConfirmed_create hnone hp.shared.lines _ _ _)
    · intro operationId' body' pc hu'
      refine ⟨(hp.mem hu operationId' body' pc hu').1, fun hrunning => ?_⟩
      rw [hidle u hu] at hrunning
      cases hrunning

/-- A task that is resumed was not over. -/
theorem finished_of_openStep (operationId : String) {w w' : World} {pc pc' : OpenPc} {a : Answer}
    (h : TradingCore.OpenStep core body w pc a w' pc') :
    finished (.openOrder operationId body pc) = false := by
  cases h <;> rfl

/-- A request is resumed. -/
theorem poolInv_resume {p : TaskPool OpenShared OpenTask} (hp : PoolInv core body base p) {i : ℕ}
    {a : Answer} (hcond : Undisturbed core body base p (.resume i a)) {t t' : OpenTask}
    {s' : OpenShared} (ht : p.tasks[i]? = some t) (h : resume core p.shared t a = some (s', t')) :
    (SharedInv core body base s' ∧ TaskInv core body base s' t' ∧
      ∀ (j : ℕ) (u : OpenTask), j ≠ i → p.tasks[j]? = some u →
        TaskInv core body base s' u ∧ Apart t' u) ∧
    (∃ lines, s'.operations.log = p.shared.operations.log ++ lines ∧
      (executions body.clientOrderId p.shared.world = 0 ∨ ∀ op ∈ lines, op.status ≠ .error)) ∧
    executions body.clientOrderId p.shared.world ≤ executions body.clientOrderId s'.world := by
  cases t with
  | answered operationId => cases h
  | openOrder operationId body' pc =>
      simp only [resume] at h
      split at h
      · cases h
      · rename_i w' pc' hstep
        cases h
        have hopen := TradingCore.openStep_cases hstep
        obtain ⟨rfl, htask⟩ := hp.task i _ ht operationId body' pc rfl
        have hrunning := finished_of_openStep operationId hopen
        obtain ⟨hop, hstage⟩ := htask hrunning
        simp only [Undisturbed, ht] at hcond
        -- one step of the open, whatever stage it is in
        have hadvances := openStep_advances hp.shared hstage hop hcond hopen
        refine ⟨⟨hadvances.shared, ?_, fun j u hj hu => ?_⟩, hadvances.log, hadvances.mono⟩
        · rintro _ _ _ ht'
          cases ht'
          exact ⟨rfl, hadvances.stage⟩
        · -- the open was in progress, so every other task is over
          have hover : finished u = true :=
            (hp.pair i j _ u (Ne.symm hj) ht hu).resolve_left (by rw [hrunning]; decide)
          refine ⟨fun operationId' body'' pc'' hu' => ?_, Or.inr hover⟩
          refine ⟨(hp.task j u hu operationId' body'' pc'' hu').1, fun hrunning' => ?_⟩
          rw [hover] at hrunning'
          cases hrunning'
  | closeOrder req pc =>
      simp only [resume] at h
      split at h
      · cases h
      · rename_i w' pc' hstep
        cases h
        obtain ⟨hostium, hsame⟩ := closeStep_ostium body hstep
        refine ⟨⟨hp.shared.of_ostium hostium (hsame ▸ hp.shared.once), fun _ _ _ ht' => (by cases ht'),
          fun j u hj hu => ⟨fun operationId body' pc'' hu' => ?_, Or.inl rfl⟩⟩, ⟨[], by simp⟩, hsame.ge⟩
        obtain ⟨hbody, htask⟩ := hp.task j u hu operationId body' pc'' hu'
        exact ⟨hbody, fun hrunning =>
          ⟨(htask hrunning).1, (htask hrunning).2.of_ostium hostium hsame⟩⟩

theorem restart_log (s : OpenShared) (k : Restart) :
    (restart s k).operations.log = s.operations.log := by
  rw [restart, OperationService.log_restart]

/-- A restart keeps what the invariant is about. -/
theorem SharedInv.restart (hs : SharedInv core body base s) (k : Restart) :
    SharedInv core body base (restart s k) where
  once := hs.once
  lines := by
    rw [restart_log]
    exact hs.lines
  agree := by
    simp only [AllConfirmed, restart_log]
    exact hs.agree
  file := by
    simp only [AllConfirmed, restart_log]
    exact hs.file

/-- What a step of the pool writes to the log: no error, once the venue has executed an open. -/
def WritesNoError (body : OrderOpenRequest) (p p' : TaskPool OpenShared OpenTask) : Prop :=
  (∃ lines, p'.shared.operations.log = p.shared.operations.log ++ lines ∧
    (executions body.clientOrderId p.shared.world = 0 ∨ ∀ op ∈ lines, op.status ≠ .error)) ∧
  executions body.clientOrderId p.shared.world ≤ executions body.clientOrderId p'.shared.world

theorem fastAckOpen_log {s' : OpenShared} {t : OpenTask}
    (h : fastAckOpen s body operationId = (s', t)) :
    s'.world = s.world ∧ ∃ lines, s'.operations.log = s.operations.log ++ lines ∧
      ∀ op ∈ lines, op.status ≠ .error := by
  unfold fastAckOpen at h
  split at h <;> cases h
  · exact ⟨rfl, [], by simp⟩
  · refine ⟨rfl, _, rfl, fun op hop => ?_⟩
    rw [List.mem_singleton.1 hop]
    exact nofun

/-- A step of the pool keeps the invariant, and writes no error once the venue has executed an
open. -/
theorem pool_step {p p' : TaskPool OpenShared OpenTask}
    {l : TaskLabel OpenRequest Answer Restart} (hp : PoolInv core body base p)
    (hbody : OneBody body l) (hcond : Undisturbed core body base p l)
    (h : (system core).step p l = some p') :
    PoolInv core body base p' ∧ WritesNoError body p p' := by
  cases l with
  | enter r =>
      obtain ⟨s', t, henter, rfl⟩ := TaskSystem.step_enter.1 h
      cases r with
      | openOrder body' operationId =>
          obtain rfl : body' = body := hbody
          have hack := Option.some.inj henter
          obtain ⟨hshared, htask, hothers⟩ := poolInv_open hp hcond hack
          obtain ⟨hworld, lines, hlog, hlines⟩ := fastAckOpen_log hack
          exact ⟨TaskSystem.inv_enter (fun _ _ htu => htu.symm) hp hshared htask hothers,
            ⟨lines, hlog, Or.inr hlines⟩, by rw [hworld]⟩
      | closeOrder req =>
          cases henter
          exact ⟨TaskSystem.inv_enter (fun _ _ htu => htu.symm) hp hp.shared
            (fun _ _ _ ht => by cases ht) fun u hu => ⟨hp.mem hu, Or.inl rfl⟩, ⟨[], by simp⟩, le_rfl⟩
  | resume i a =>
      obtain ⟨t, s', t', ht, hresume, rfl⟩ := TaskSystem.step_resume.1 h
      obtain ⟨⟨hshared, htask, hothers⟩, hlog, hmono⟩ := poolInv_resume hp hcond ht hresume
      exact ⟨TaskSystem.inv_resume (fun _ _ htu => htu.symm) hp hshared htask hothers, hlog, hmono⟩
  | restart k =>
      obtain ⟨s', hrestart, rfl⟩ := TaskSystem.step_restart.1 h
      obtain rfl := Option.some.inj hrestart
      -- a restart loses the tasks, and nothing that the invariant speaks of
      have hlog := restart_log p.shared k
      refine ⟨TaskPool.inv_of_nil (hp.shared.restart k), ⟨[], ?_, Or.inr (by simp)⟩, le_rfl⟩
      rw [hlog, List.append_nil]

/-- A run keeps the invariant, and writes no error once the venue has executed an open. -/
theorem pool_exec {p p' : TaskPool OpenShared OpenTask}
    {ls : List (TaskLabel OpenRequest Answer Restart)} (hp : PoolInv core body base p)
    (hcond : Transition.Meets (system core).step
      (fun q l => OneBody body l ∧ Undisturbed core body base q l) p ls)
    (h : Transition.exec (system core).step p ls = some p') :
    PoolInv core body base p' ∧ (1 ≤ executions body.clientOrderId p.shared.world →
      ∀ op ∈ p'.shared.operations.log.drop p.shared.operations.log.length, op.status ≠ .error) := by
  have hinv : PoolInv core body base p' ∧ (1 ≤ executions body.clientOrderId p.shared.world →
      1 ≤ executions body.clientOrderId p'.shared.world ∧
      ∃ lines, p'.shared.operations.log = p.shared.operations.log ++ lines ∧
        ∀ op ∈ lines, op.status ≠ .error) := by
    refine Transition.exec_invariant_of_meets (I := fun q => PoolInv core body base q ∧
      (1 ≤ executions body.clientOrderId p.shared.world →
        1 ≤ executions body.clientOrderId q.shared.world ∧
        ∃ lines, q.shared.operations.log = p.shared.operations.log ++ lines ∧
          ∀ op ∈ lines, op.status ≠ .error)) ?_ ⟨hp, fun hexec => ⟨hexec, [], by simp⟩⟩ hcond h
    rintro q l q' ⟨hq, hlog⟩ ⟨hbody, hl⟩ hstep
    obtain ⟨hq', ⟨new, hnew, hclean⟩, hmono⟩ := pool_step hq hbody hl hstep
    refine ⟨hq', fun hexec => ?_⟩
    obtain ⟨hexec', lines, hlines, hlines'⟩ := hlog hexec
    refine ⟨hexec'.trans hmono, lines ++ new, by rw [hnew, hlines, List.append_assoc], fun op hop => ?_⟩
    rcases List.mem_append.1 hop with hold | hnew'
    · exact hlines' op hold
    · exact hclean.resolve_left (by omega) op hnew'
  refine ⟨hinv.1, fun hexec op hop => ?_⟩
  obtain ⟨-, lines, hlines, hclean⟩ := hinv.2 hexec
  rw [hlines, List.drop_left] at hop
  exact hclean op hop

/-- In every run of requests with one body, closes and restarts whose steps meet the condition, the
venues execute at most one open for the client order id, all confirmed operations have the same
position, and from any moment at which an open is executed on, no operation ends in an error. -/
theorem open_idempotent {s₀ : OpenShared}
    (hfile : s₀.world.ostium.idempotent body.clientOrderId = none)
    (hnew : executions body.clientOrderId s₀.world = 0)
    {ls : List (TaskLabel OpenRequest Answer Restart)} (hbody : ∀ l ∈ ls, OneBody body l)
    (hcond : Transition.Meets (system core).step
      (Undisturbed core body s₀.operations.log.length) ⟨s₀, []⟩ ls)
    {p : TaskPool OpenShared OpenTask}
    (h : Transition.exec (system core).step ⟨s₀, []⟩ ls = some p) :
    executions body.clientOrderId p.shared.world ≤ 1 ∧
      (∃ positionId, ∀ op ∈ p.shared.operations.log.drop s₀.operations.log.length,
        op.status = .confirmed → op.positionId = positionId) ∧
      ∀ ls₁ ls₂ q, ls = ls₁ ++ ls₂ → Transition.exec (system core).step ⟨s₀, []⟩ ls₁ = some q →
        1 ≤ executions body.clientOrderId q.shared.world →
        ∀ op ∈ p.shared.operations.log.drop q.shared.operations.log.length,
          op.status ≠ .error := by
  have hstart : PoolInv core body s₀.operations.log.length ⟨s₀, []⟩ := by
    refine TaskPool.inv_of_nil ⟨hnew.le.trans (by decide), le_rfl, ⟨"", fun op hop => ?_⟩,
      fun pid hpid => ?_⟩
    · rw [List.drop_length] at hop
      cases hop
    · cases hfile.symm.trans hpid
  have hmeets := (Transition.meets_of_forall hbody _).and hcond
  have hinv := (pool_exec hstart hmeets h).1
  refine ⟨hinv.shared.once, hinv.shared.agree, ?_⟩
  rintro ls₁ ls₂ q rfl hq hexec
  have hrest := h
  rw [Transition.exec_append hq] at hrest
  -- the rest of the run begins in a state where the order was executed
  have hinv' := (pool_exec hstart hmeets.of_append_left hq).1
  exact (pool_exec hinv' (hmeets.of_append hq) hrest).2 hexec

end

/-! ### A restart between two requests -/

/-- An order for Ostium with a client order id. -/
def retriedOrder : OrderOpenRequest :=
  { TradingCore.eurusdOrder 50 (by norm_num) with clientOrderId := some "c" }

/-- A service in live mode, with the canary at Ostium. -/
def liveCore : TradingCore := TradingCore.wired (TradingCore.canaryCfg "live" true)

/-- The run of some requests from a fresh state. -/
def runOpens (ls : List (TaskLabel OpenRequest Answer Restart)) :
    Option (TaskPool OpenShared OpenTask) :=
  Transition.exec (system liveCore).step
    ⟨⟨TradingCore.freshWorld .ostiumClient, OperationService.init, Dict.empty⟩, []⟩ ls

/-- The trade that the order opens, as the client reports it. -/
def openedTrade : OpenTradeInfo := World.tradeOf retriedOrder (2, 0) 1

/-- An order is opened and confirmed. -/
def firstOpen : List (TaskLabel OpenRequest Answer Restart) :=
  [.enter (.openOrder retriedOrder "op1"), .resume 0 (.gate none), .resume 0 (.listing (.ok [])),
    .resume 0 .resume, .resume 0 (.price (.ok 1)),
    .resume 0 (.openTrade (.opened (2, 0) ⟨"0xabc", 2, 0, 1⟩)), .resume 0 .resume,
    .resume 0 (.listing (.ok [openedTrade]))]

/-- Its position is closed. -/
def closing : List (TaskLabel OpenRequest Answer Restart) :=
  [.enter (.closeOrder ⟨"ostium", "ostium:2:0", 100, none, TradingCore.hundred_pos, le_rfl⟩), .resume 1 .resume,
    .resume 1 (.tradeInfo none), .resume 1 (.price (.ok 1)), .resume 1 (.closeTrade none),
    .resume 1 (.listing (.ok []))]

/-- The process starts again, and the client tries again while some trades are open. -/
def retry (trades : List OpenTradeInfo) : List (TaskLabel OpenRequest Answer Restart) :=
  [.restart ⟨10000, 5⟩, .enter (.openOrder retriedOrder "op2"), .resume 0 (.gate none),
    .resume 0 (.listing (.ok trades)), .resume 0 .resume]

/-- The status of an operation. -/
def status? (p : TaskPool OpenShared OpenTask) (operationId : String) : Option OperationStatus :=
  (p.shared.operations.store.get? operationId).map Operation.status

/-- If the position is closed before the process starts again, the retry is confirmed with the
position of the first request. -/
theorem open_idempotent_closed :
    ∃ p, runOpens (firstOpen ++ closing ++ (retry [] ++ [.resume 0 (.listing (.ok []))])) = some p ∧
      status? p "op2" = some .confirmed ∧
      executions retriedOrder.clientOrderId p.shared.world ≤ 1 := by
  have hrun : (runOpens (firstOpen ++ closing ++ (retry [] ++ [.resume 0 (.listing (.ok []))]))).map
      (fun p => status? p "op2") = some (some .confirmed) := by
    decide
  obtain ⟨p, hp, hstatus⟩ := Option.map_eq_some_iff.1 hrun
  exact ⟨p, hp, hstatus, (open_idempotent rfl rfl (by decide) (by decide) hp).1⟩

/-- If it is still open, the retry ends in an error, although the position of the id is open. -/
theorem retry_after_restart :
    ∃ q p, runOpens firstOpen = some q ∧ runOpens (firstOpen ++ retry [openedTrade]) = some p ∧
      executions retriedOrder.clientOrderId q.shared.world = 1 ∧
      status? q "op1" = some .confirmed ∧ status? p "op2" = some .error := by
  have hfirst : (runOpens firstOpen).map (fun q =>
      (executions retriedOrder.clientOrderId q.shared.world, status? q "op1")) =
        some (1, some .confirmed) := by
    decide
  have hretry : (runOpens (firstOpen ++ retry [openedTrade])).map (fun p => status? p "op2") =
      some (some .error) := by
    decide
  obtain ⟨q, hq, hstatus⟩ := Option.map_eq_some_iff.1 hfirst
  obtain ⟨p, hp, herror⟩ := Option.map_eq_some_iff.1 hretry
  exact ⟨q, p, hq, hp, (Prod.mk.inj hstatus).1, (Prod.mk.inj hstatus).2, herror⟩

end OrderOpen
