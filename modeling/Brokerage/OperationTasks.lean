/-
**Opens and closes beside each other, and the statuses of their operations.**

Every open and every close that is not answered from a cache has an operation.  The background
task of an open confirms it or marks it with an error; so does that of a close, whose handler may
mark it pending when its wait is over.  Here both kinds run in one process, with adapters of which
nothing is known: whatever they return or raise is in the labels.

An operation that is confirmed or failed stays so, since a handler marks an operation pending only
while its background task is running.  But an operation is confirmed whenever the adapter returned,
also if it returned no success.

Main definitions:

* `OpenBackground`, `OperationTasks.resumeOpen` — the background task of an open;
* `OperationTasks.system` — opens and closes as a system of tasks;
* `OperationTasks.Fresh` — the identifiers of new operations are new;
* `OperationTasks.status` — the status of an operation, as the state of its task tells it;
* `OperationTasks.Truthful` — the status of an operation tells what the adapter did.

Main results:

* `OperationTasks.resume_moves` — how a step changes the status of its operation;
* `OperationTasks.terminal_absorbing` — a confirmed or failed operation never changes again;
* `OperationTasks.truthful_iff` — an operation is truthful unless the adapter returned no success;
* `OperationTasks.unsuccessful_confirmed` — a close and an open without success that are confirmed.
-/

import Brokerage.OrderClose
import Brokerage.OrderOpen

set_option relaxedAutoImplicit false
set_option autoImplicit false

/-- Where the background task of an open is. -/
inductive OpenBackground
  /-- It has not run yet. -/
  | scheduled
  /-- It waits for the open positions of the guard. -/
  | listing (venue : String)
  /-- The adapter was asked to open. -/
  | opening (venue : String)
  /-- It raised before the adapter was asked to open. -/
  | refused (e : CoreError)
  /-- The adapter raised. -/
  | raised (e : CoreError)
  /-- The adapter returned, and the reconciliation runs. -/
  | reconciling (result : OrderOpenResult)
  /-- It returned a result. -/
  | returned (result : OrderOpenResult)
  deriving DecidableEq

/-- What the background task of an open is resumed with. -/
inductive OpenAnswer
  /-- The quality gate: the reason for a bad one. -/
  | gate (bad : Option String)
  /-- The open positions that the adapter lists, or what it raises. -/
  | listing (positions : Except CoreError (List Position))
  /-- The adapter returns or raises. -/
  | adapter (result : Except CoreError OrderResult)
  /-- The reconciliation is over. -/
  | reconciled
  deriving DecidableEq

/-- A request in progress: an open answered from the cache, an open with its operation and
background task, or a close. -/
inductive OperationTask
  | answered (operationId : String)
  | openOrder (operationId : String) (body : OrderOpenRequest) (background : OpenBackground)
  | closeOrder (task : CloseTask)
  deriving DecidableEq

/-- What starts a request, with the identifier drawn for its operation. -/
inductive OperationRequest
  | openOrder (body : OrderOpenRequest) (operationId : String)
  | closeOrder (body : OrderCloseRequest) (operationId : String)
  deriving DecidableEq

/-- What a request is resumed with. -/
inductive OperationAnswer
  | openOrder (answer : OpenAnswer)
  | closeOrder (answer : CloseAnswer)
  deriving DecidableEq

/-- What the requests share. -/
structure OperationShared where
  operations : OperationService
  openCache : Dict String String
  closeCache : Dict CloseKey CachedClose
  deriving DecidableEq

namespace OperationTasks

variable (core : TradingCore)

/-! ### Opening -/

/-- The operation that the cache has for a client order id, if it is still known. -/
def cachedOpen (s : OperationShared) (clientOrderId : String) : Option String :=
  if clientOrderId = "" then none
  else
    match s.openCache.get? clientOrderId with
    | none => none
    | some operationId => if s.operations.has operationId then some operationId else none

/-- A request to open is answered from the cache, or an operation is created and its open
scheduled. -/
def fastAckOpen (s : OperationShared) (body : OrderOpenRequest) (operationId : String) :
    OperationShared × OperationTask :=
  match cachedOpen s (OrderOpen.strippedId body) with
  | some cached => (s, .answered cached)
  | none =>
      ({ s with
          operations := s.operations.create operationId .openOrder body.venue body.symbol ""
          openCache := if OrderOpen.strippedId body = "" then s.openCache
            else s.openCache.set (OrderOpen.strippedId body) operationId },
        .openOrder operationId body .scheduled)

/-- The background task raises. -/
def failOpen (operations : OperationService) (operationId : String) (e : CoreError) :
    OperationService :=
  operations.update operationId .error "" "" (some (OrderOpen.operationError e))

/-- The checks before the guard: the quality gate, the live guards, the adapter. -/
def openChecks (body : OrderOpenRequest) (bad : Option String) :
    Except CoreError (String × AdapterId) :=
  match if core.hasReader then bad else none with
  | some reason => .error (.dataQualityGateBad body.symbol reason)
  | none => core.openTarget body

/-- One step of the background task of an open. -/
def resumeOpen (operations : OperationService) (operationId : String) (body : OrderOpenRequest) :
    OpenBackground → OpenAnswer → Option (OperationService × OpenBackground)
  | .scheduled, .gate bad =>
      match openChecks core body bad with
      | .error e => some (failOpen operations operationId e, .refused e)
      | .ok (venue, _) => some (operations, .listing venue)
  | .listing _, .listing (.error e) => some (failOpen operations operationId e, .refused e)
  | .listing venue, .listing (.ok positions) =>
      match assertNoOpenPositionForSymbol positions body.symbol venue with
      | .error e => some (failOpen operations operationId e, .refused e)
      | .ok () => some (operations, .opening venue)
  | .opening _, .adapter (.error e) => some (failOpen operations operationId e, .raised e)
  | .opening venue, .adapter (.ok result) =>
      some (operations, .reconciling (TradingCore.openResult venue result))
  | .reconciling result, .reconciled =>
      some (operations.update operationId .confirmed result.positionId result.txHash none,
        .returned result)
  | _, _ => none

/-! ### The system -/

/-- What the closes share. -/
def closeShared (s : OperationShared) : CloseShared := ⟨s.operations, s.closeCache⟩

/-- What a close leaves. -/
def withClose (s : OperationShared) (w : CloseShared) : OperationShared :=
  { s with operations := w.operations, closeCache := w.cache }

/-- A request enters. -/
def enter (s : OperationShared) : OperationRequest → OperationShared × OperationTask
  | .openOrder body operationId => fastAckOpen s body operationId
  | .closeOrder body operationId =>
      let (w, task) := OrderClose.enter (closeShared s) body operationId
      (withClose s w, .closeOrder task)

/-- One step of a request. -/
def resume (s : OperationShared) :
    OperationTask → OperationAnswer → Option (OperationShared × OperationTask)
  | .openOrder operationId body background, .openOrder answer =>
      match resumeOpen core s.operations operationId body background answer with
      | none => none
      | some (operations, background') =>
          some ({ s with operations }, .openOrder operationId body background')
  | .closeOrder task, .closeOrder answer =>
      match OrderClose.resume core (closeShared s) task answer with
      | none => none
      | some (w, task') => some (withClose s w, .closeOrder task')
  | _, _ => none

/-- The requests of one process. -/
def system : TaskSystem OperationShared OperationTask OperationRequest OperationAnswer Empty where
  enter s r := some (enter s r)
  resume s t a := resume core s t a
  restart _ k := k.elim

/-- The identifier that a request brings for its operation is new. -/
def Fresh (p : TaskPool OperationShared OperationTask) :
    TaskLabel OperationRequest OperationAnswer Empty → Prop
  | .enter (.openOrder _ operationId) => p.shared.operations.has operationId = false
  | .enter (.closeOrder _ operationId) => p.shared.operations.has operationId = false
  | _ => True

instance (p : TaskPool OperationShared OperationTask)
    (l : TaskLabel OperationRequest OperationAnswer Empty) : Decidable (Fresh p l) := by
  unfold Fresh
  split <;> infer_instance

/-! ### The status of an operation -/

/-- The status that the background task of an open gives its operation. -/
def openStatus : OpenBackground → OperationStatus
  | .refused _ => .error
  | .raised _ => .error
  | .returned _ => .confirmed
  | _ => .inProgress

/-- The status that the background task and the handler of a close give its operation. -/
def closeStatus (background : CloseBackground) (handler : CloseHandler) : OperationStatus :=
  match OrderClose.outcome? background with
  | some (.ok _) => .confirmed
  | some (.error _) => .error
  | none => if handler = .timedOut then .pending else .inProgress

/-- The operation of a request. -/
def operationId? : OperationTask → Option String
  | .answered _ => none
  | .openOrder operationId _ _ => some operationId
  | .closeOrder task =>
      match task.phase with
      | .cached _ => none
      | .running operationId _ _ => some operationId

/-- The status of the operation of a request, as the state of the request tells it. -/
def status : OperationTask → OperationStatus
  | .answered _ => .inProgress
  | .openOrder _ _ background => openStatus background
  | .closeOrder task =>
      match task.phase with
      | .cached _ => .inProgress
      | .running _ background handler => closeStatus background handler

/-- The operation is over. -/
def terminal : OperationStatus → Bool
  | .confirmed => true
  | .error => true
  | _ => false

/-- How a status may change: out of `in_progress` to any other one, out of `pending` to one that
is terminal. -/
inductive Moves : OperationStatus → OperationStatus → Prop
  | timeout : Moves .inProgress .pending
  | finish {s t : OperationStatus} (hs : terminal s = false) (ht : terminal t = true) : Moves s t

/-- How a step changes the operation of its task: not at all, or to the status of the new state. -/
def Updates (operations operations' : OperationService) (operationId : String)
    (s t : OperationStatus) : Prop :=
  operations' = operations ∧ t = s ∨
    Moves s t ∧ ∃ positionId txHash error,
      operations' = operations.update operationId t positionId txHash error

variable {core}

theorem Updates.fail {operations : OperationService} {operationId : String} {s : OperationStatus}
    (hs : terminal s = false) (e : CoreError) :
    Updates operations (failOpen operations operationId e) operationId s .error :=
  Or.inr ⟨.finish hs rfl, _, _, _, rfl⟩

/-- How a step of the background task of an open changes its operation. -/
theorem resumeOpen_updates {operations operations' : OperationService} {operationId : String}
    {body : OrderOpenRequest} {background background' : OpenBackground} {answer : OpenAnswer}
    (h : resumeOpen core operations operationId body background answer =
      some (operations', background')) :
    Updates operations operations' operationId (openStatus background)
      (openStatus background') := by
  unfold resumeOpen at h
  split at h
  · split at h
    · obtain ⟨rfl, rfl⟩ := Prod.mk.inj (Option.some.inj h)
      exact .fail rfl _
    · obtain ⟨rfl, rfl⟩ := Prod.mk.inj (Option.some.inj h)
      exact Or.inl ⟨rfl, rfl⟩
  · obtain ⟨rfl, rfl⟩ := Prod.mk.inj (Option.some.inj h)
    exact .fail rfl _
  · split at h
    · obtain ⟨rfl, rfl⟩ := Prod.mk.inj (Option.some.inj h)
      exact .fail rfl _
    · obtain ⟨rfl, rfl⟩ := Prod.mk.inj (Option.some.inj h)
      exact Or.inl ⟨rfl, rfl⟩
  · obtain ⟨rfl, rfl⟩ := Prod.mk.inj (Option.some.inj h)
    exact .fail rfl _
  · obtain ⟨rfl, rfl⟩ := Prod.mk.inj (Option.some.inj h)
    exact Or.inl ⟨rfl, rfl⟩
  · obtain ⟨rfl, rfl⟩ := Prod.mk.inj (Option.some.inj h)
    exact Or.inr ⟨.finish rfl rfl, _, _, _, rfl⟩
  · cases h

/-- How a step of a close changes its operation. -/
theorem closeStep_updates {w w' : CloseShared} {body : OrderCloseRequest} {operationId : String}
    {background background' : CloseBackground} {handler handler' : CloseHandler}
    (h : OrderClose.CloseStep w body operationId background handler w' background' handler') :
    Updates w.operations w'.operations operationId (closeStatus background handler)
      (closeStatus background' handler') := by
  -- while the background task runs the operation is not over
  have hrunning : ∀ (b : CloseBackground) (handler : CloseHandler),
      OrderClose.outcome? b = none → terminal (closeStatus b handler) = false := by
    intro b handler hb
    rw [closeStatus, hb]
    dsimp only
    split <;> rfl
  cases h with
  | refused e => exact Or.inr ⟨.finish (hrunning _ _ rfl) rfl, _, _, _, rfl⟩
  | started => exact Or.inl ⟨rfl, rfl⟩
  | adapterRaises text => exact Or.inr ⟨.finish (hrunning _ _ rfl) rfl, _, _, _, rfl⟩
  | adapterReturns success => exact Or.inl ⟨rfl, rfl⟩
  | reconciled success =>
      refine Or.inr ⟨.finish (hrunning _ _ rfl) rfl, body.positionId, "", none, ?_⟩
      rw [OrderClose.finish, OrderClose.cacheCloseResponse]
      split <;> rfl
  | completed background outcome hout =>
      refine Or.inl ⟨rfl, ?_⟩
      rw [closeStatus, closeStatus, hout]
      cases outcome <;> rfl
  | timedOut background hout =>
      -- the handler marks the operation pending only while the background task is running
      refine Or.inr ⟨?_, body.positionId, "", none, ?_⟩
      · rw [closeStatus, closeStatus, hout]
        exact .timeout
      · rw [closeStatus, hout]
        rfl

/-- How a step of a request changes its operation. -/
theorem resume_moves {s s' : OperationShared} {t t' : OperationTask} {a : OperationAnswer}
    (h : resume core s t a = some (s', t')) :
    operationId? t' = operationId? t ∧ ∃ operationId, operationId? t = some operationId ∧
      Updates s.operations s'.operations operationId (status t) (status t') := by
  unfold resume at h
  split at h
  · split at h
    · cases h
    · rename_i operations' background' hstep
      obtain ⟨rfl, rfl⟩ := Prod.mk.inj (Option.some.inj h)
      exact ⟨rfl, _, rfl, resumeOpen_updates hstep⟩
  · split at h
    · cases h
    · rename_i w' task' hstep
      obtain ⟨rfl, rfl⟩ := Prod.mk.inj (Option.some.inj h)
      obtain ⟨body, op, bg, handler, bg', handler', rfl, rfl, hclose⟩ :=
        OrderClose.resume_cases hstep
      exact ⟨rfl, op, rfl, closeStep_updates hclose⟩
  · cases h

/-- A request that enters leaves the operations alone, or creates its own. -/
theorem enter_cases {s w : OperationShared} {r : OperationRequest} {t : OperationTask}
    (h : enter s r = (w, t)) :
    w.operations = s.operations ∧ operationId? t = none ∨
      ∃ operationId kind venue symbol positionId,
        (∀ ts : List OperationTask, Fresh ⟨s, ts⟩ (.enter r) →
          s.operations.has operationId = false) ∧
        w.operations = s.operations.create operationId kind venue symbol positionId ∧
        operationId? t = some operationId ∧ status t = .inProgress := by
  cases r with
  | openOrder body operationId =>
      simp only [enter, fastAckOpen] at h
      split at h
      · obtain ⟨rfl, rfl⟩ := Prod.mk.inj h
        exact Or.inl ⟨rfl, rfl⟩
      · obtain ⟨rfl, rfl⟩ := Prod.mk.inj h
        exact Or.inr ⟨operationId, _, _, _, _, fun _ hfresh => hfresh, rfl, rfl, rfl⟩
  | closeOrder body operationId =>
      simp only [enter, OrderClose.enter] at h
      split at h
      · obtain ⟨rfl, rfl⟩ := Prod.mk.inj h
        exact Or.inl ⟨rfl, rfl⟩
      · obtain ⟨rfl, rfl⟩ := Prod.mk.inj h
        exact Or.inr ⟨operationId, _, _, _, _, fun _ hfresh => hfresh, rfl, rfl, rfl⟩

/-! ### The invariant -/

/-- The stored status of the operation of a request is the one that the request tells. -/
def Recorded (s : OperationShared) (t : OperationTask) : Prop :=
  ∀ operationId, operationId? t = some operationId →
    ∃ op, s.operations.store.get? operationId = some op ∧ op.status = status t

/-- Two requests have different operations. -/
def Distinct (t u : OperationTask) : Prop :=
  ∀ operationId, operationId? t = some operationId → operationId? u ≠ some operationId

theorem Distinct.symm {t u : OperationTask} (h : Distinct t u) : Distinct u t :=
  fun operationId hu ht => h operationId ht hu

/-- The invariant. -/
abbrev Inv : TaskPool OperationShared OperationTask → Prop :=
  TaskPool.Inv (fun _ => True) Recorded Distinct

/-- What an update of an operation does to it. -/
theorem Updates.get? {operations operations' : OperationService} {operationId : String}
    {s t : OperationStatus} {op : Operation} (h : Updates operations operations' operationId s t)
    (hop : operations.store.get? operationId = some op) (hs : op.status = s) :
    ∃ op', operations'.store.get? operationId = some op' ∧ op'.status = t ∧
      (op' = op ∨ Moves s t) := by
  rcases h with ⟨rfl, rfl⟩ | ⟨hmoves, positionId, txHash, error, rfl⟩
  · exact ⟨op, hop, hs, Or.inl rfl⟩
  · refine ⟨op.updated t positionId txHash error, ?_, rfl, Or.inr hmoves⟩
    rw [OperationService.get?_update, if_pos rfl, hop, Option.map_some]

/-- An update of an operation leaves the others alone. -/
theorem Updates.get?_of_ne {operations operations' : OperationService} {operationId id : String}
    {s t : OperationStatus} (h : Updates operations operations' operationId s t)
    (hne : id ≠ operationId) : operations'.store.get? id = operations.store.get? id := by
  rcases h with ⟨rfl, -⟩ | ⟨-, positionId, txHash, error, rfl⟩
  · rfl
  · rw [OperationService.get?_update, if_neg hne]

theorem Recorded.of_get? {s s' : OperationShared} {t : OperationTask} (h : Recorded s t)
    (hget : ∀ id, operationId? t = some id →
      s'.operations.store.get? id = s.operations.store.get? id) : Recorded s' t := by
  intro id hid
  obtain ⟨op, hop, hstatus⟩ := h id hid
  exact ⟨op, (hget id hid).trans hop, hstatus⟩

/-- What an operation that is created leaves of the others. -/
theorem get?_create_of_ne {s : OperationService} {operationId id : String} {kind : OperationKind}
    {venue symbol positionId : String} (hne : id ≠ operationId) :
    (s.create operationId kind venue symbol positionId).store.get? id = s.store.get? id := by
  rw [OperationService.create, OperationService.get?_write, if_neg hne]

theorem ne_of_has_eq_false {s : OperationService} {operationId id : String} {op : Operation}
    (hop : s.store.get? id = some op) (hfresh : s.has operationId = false) : id ≠ operationId := by
  rintro rfl
  rw [OperationService.has, Dict.contains, hop] at hfresh
  cases hfresh

/-- A request that enters keeps the invariant. -/
theorem inv_enter {p : TaskPool OperationShared OperationTask} (hp : Inv p)
    {r : OperationRequest} (hfresh : Fresh p (.enter r)) {w : OperationShared} {t : OperationTask}
    (h : enter p.shared r = (w, t)) :
    Recorded w t ∧ ∀ u ∈ p.tasks, Recorded w u ∧ Distinct t u := by
  rcases enter_cases h with ⟨hops, hnone⟩ |
    ⟨operationId, kind, venue, symbol, positionId, hnew, hops, hid, hstatus⟩
  · refine ⟨fun id hid => ?_, fun u hu => ⟨(hp.mem hu).of_get? fun id _ => ?_, fun id hid => ?_⟩⟩
    · rw [hnone] at hid
      cases hid
    · rw [hops]
    · rw [hnone] at hid
      cases hid
  · -- the new operation is none of those that are stored
    have hne : ∀ u ∈ p.tasks, ∀ id, operationId? u = some id → id ≠ operationId := by
      intro u hu id hid'
      obtain ⟨op, hop, -⟩ := hp.mem hu id hid'
      exact ne_of_has_eq_false hop (hnew p.tasks hfresh)
    refine ⟨fun id hid' => ?_, fun u hu =>
      ⟨(hp.mem hu).of_get? fun id hid' => ?_, fun id hid' hu' => ?_⟩⟩
    · obtain rfl : operationId = id := Option.some.inj (hid.symm.trans hid')
      rw [hops, hstatus, OperationService.create, OperationService.get?_write, if_pos rfl]
      exact ⟨_, rfl, rfl⟩
    · rw [hops, get?_create_of_ne (hne u hu id hid')]
    · obtain rfl : operationId = id := Option.some.inj (hid.symm.trans hid')
      exact hne u hu _ hu' rfl

/-- A step of a request keeps the invariant. -/
theorem inv_resume {p : TaskPool OperationShared OperationTask} (hp : Inv p) {i : ℕ}
    {t t' : OperationTask} {a : OperationAnswer} {w : OperationShared} (ht : p.tasks[i]? = some t)
    (h : resume core p.shared t a = some (w, t')) :
    Recorded w t' ∧ ∀ (j : ℕ) (u : OperationTask), j ≠ i → p.tasks[j]? = some u →
      Recorded w u ∧ Distinct t' u := by
  obtain ⟨hid, operationId, hop, hupdates⟩ := resume_moves h
  obtain ⟨op, hget, hstatus⟩ := hp.task i t ht operationId hop
  obtain ⟨op', hget', hstatus', -⟩ := hupdates.get? hget hstatus
  refine ⟨fun id hid' => ?_, fun j u hj hu => ⟨(hp.task j u hu).of_get? fun id hid' => ?_,
    fun id hid' => ?_⟩⟩
  · obtain rfl : operationId = id := Option.some.inj (hop.symm.trans (hid.symm.trans hid'))
    exact ⟨op', hget', hstatus'⟩
  · refine hupdates.get?_of_ne ?_
    rintro rfl
    exact hp.pair i j t u (Ne.symm hj) ht hu _ hop hid'
  · exact hp.pair i j t u (Ne.symm hj) ht hu id (hid.symm.trans hid')

/-- Every step that brings a new identifier keeps the invariant. -/
theorem inv_step {p q : TaskPool OperationShared OperationTask}
    {l : TaskLabel OperationRequest OperationAnswer Empty} (hp : Inv p) (hl : Fresh p l)
    (h : (system core).step p l = some q) : Inv q := by
  refine TaskSystem.step_inv (P := Fresh) ⟨fun t u htu => htu.symm, ?_, ?_, ?_⟩ hp hl h
  · intro p r w t hp hfresh henter
    exact ⟨trivial, inv_enter hp hfresh (Option.some.inj henter)⟩
  · intro p i a t w t' hp _ ht hresume
    exact ⟨trivial, inv_resume hp ht hresume⟩
  · intro p k
    exact k.elim

/-! ### Terminal operations -/

/-- How an operation may be later: not changed at all if it is over, and over or not changed if it
is pending. -/
structure Settles (op op' : Operation) : Prop where
  terminal : OperationTasks.terminal op.status = true → op' = op
  pending : op.status = .pending → op' = op ∨ OperationTasks.terminal op'.status = true

theorem Settles.refl (op : Operation) : Settles op op := ⟨fun _ => rfl, fun _ => Or.inl rfl⟩

theorem Settles.trans {op op' op'' : Operation} (h : Settles op op') (h' : Settles op' op'') :
    Settles op op'' where
  terminal ht := by
    obtain rfl := h.terminal ht
    exact h'.terminal ht
  pending hs := by
    rcases h.pending hs with rfl | ht
    · exact h'.pending hs
    · obtain rfl := h'.terminal ht
      exact Or.inr ht

/-- A change of status settles the operation. -/
theorem Moves.settles {op op' : Operation} (h : Moves op.status op'.status) : Settles op op' where
  terminal ht := by
    generalize op.status = s, op'.status = t at h ht
    cases h with
    | timeout => cases ht
    | finish hs _ => exact absurd ht (by rw [hs]; decide)
  pending hs := by
    generalize op'.status = t at h ⊢
    rw [hs] at h
    cases h with
    | finish _ ht => exact Or.inr ht

/-- A step keeps every operation, and settles it. -/
theorem step_settles {p q : TaskPool OperationShared OperationTask}
    {l : TaskLabel OperationRequest OperationAnswer Empty} (hp : Inv p) (hl : Fresh p l)
    (h : (system core).step p l = some q) {id : String} {op : Operation}
    (hop : p.shared.operations.store.get? id = some op) :
    ∃ op', q.shared.operations.store.get? id = some op' ∧ Settles op op' := by
  cases l with
  | enter r =>
      obtain ⟨w, t, he, rfl⟩ := TaskSystem.step_enter.1 h
      have he' : enter p.shared r = (w, t) := Option.some.inj he
      refine ⟨op, ?_, .refl op⟩
      rcases enter_cases he' with ⟨hops, -⟩ |
        ⟨operationId, kind, venue, symbol, positionId, hnew, hops, -, -⟩
      · rw [hops, hop]
      · rw [hops, get?_create_of_ne (ne_of_has_eq_false hop (hnew p.tasks hl)), hop]
  | resume i a =>
      obtain ⟨t, w, t', ht, hr, rfl⟩ := TaskSystem.step_resume.1 h
      obtain ⟨-, operationId, hid, hupdates⟩ := resume_moves hr
      -- only the operation of the request itself is written
      by_cases hne : id = operationId
      · subst hne
        obtain ⟨op₀, hop₀, hstatus⟩ := hp.task i t ht id hid
        obtain rfl : op₀ = op := Option.some.inj (hop₀.symm.trans hop)
        obtain ⟨op', hop', hstatus', hmoves⟩ := hupdates.get? hop hstatus
        refine ⟨op', hop', ?_⟩
        rcases hmoves with rfl | hmoves
        · exact .refl op'
        · rw [← hstatus, ← hstatus'] at hmoves
          exact hmoves.settles
      · exact ⟨op, (hupdates.get?_of_ne hne).trans hop, .refl op⟩
  | restart k => exact k.elim

/-- In every run that draws new identifiers, an operation that is confirmed or failed after the
first part of the run is the same after the second part, and a pending one is the same or is
confirmed or failed. -/
theorem terminal_absorbing {w : OperationShared}
    {ls ms : List (TaskLabel OperationRequest OperationAnswer Empty)}
    (hfresh : Transition.Meets (system core).step Fresh ⟨w, []⟩ (ls ++ ms))
    {p q : TaskPool OperationShared OperationTask}
    (hp : Transition.exec (system core).step ⟨w, []⟩ ls = some p)
    (hq : Transition.exec (system core).step p ms = some q) {id : String} {op : Operation}
    (hop : p.shared.operations.store.get? id = some op) :
    ∃ op', q.shared.operations.store.get? id = some op' ∧
      (terminal op.status = true → op' = op) ∧
      (op.status = .pending → op' = op ∨ terminal op'.status = true) := by
  have hinv : Inv p :=
    Transition.exec_invariant_of_meets (fun _ _ _ => inv_step) (TaskPool.inv_of_nil trivial)
      hfresh.of_append_left hp
  -- along the second part of the run every step settles the operation further
  have hlater : Inv q ∧ ∃ op', q.shared.operations.store.get? id = some op' ∧ Settles op op' := by
    refine Transition.exec_invariant_of_meets
      (I := fun q => Inv q ∧ ∃ op', q.shared.operations.store.get? id = some op' ∧ Settles op op')
      ?_ ⟨hinv, op, hop, .refl op⟩ (hfresh.of_append hp) hq
    rintro p' l q' ⟨hp', op', hop', hsettles⟩ hl hstep
    obtain ⟨op'', hop'', hsettles'⟩ := step_settles hp' hl hstep hop'
    exact ⟨inv_step hp' hl hstep, op'', hop'', hsettles.trans hsettles'⟩
  obtain ⟨-, op', hop', hsettles⟩ := hlater
  exact ⟨op', hop', hsettles.terminal, hsettles.pending⟩

/-! ### Truthful operations -/

/-- What the call of an adapter came to. -/
inductive CallOutcome
  | succeeded
  | failed
  | raised
  deriving DecidableEq

/-- What an adapter that returned came to. -/
def CallOutcome.ofSuccess (success : Bool) : CallOutcome :=
  if success then .succeeded else .failed

/-- What the adapter did that an open called, if the call is over. -/
def openOutcome? : OpenBackground → Option CallOutcome
  | .raised _ => some .raised
  | .reconciling result => some (.ofSuccess result.success)
  | .returned result => some (.ofSuccess result.success)
  | _ => none

/-- What the adapter did that a close called, if the call is over. -/
def closeOutcome? : CloseBackground → Option CallOutcome
  | .raised _ => some .raised
  | .reconciling success => some (.ofSuccess success)
  | .returned response => some (.ofSuccess response.success)
  | _ => none

/-- What the adapter did that a request called, if the call is over. -/
def callOutcome? : OperationTask → Option CallOutcome
  | .answered _ => none
  | .openOrder _ _ background => openOutcome? background
  | .closeOrder task =>
      match task.phase with
      | .cached _ => none
      | .running _ background _ => closeOutcome? background

/-- The background task of an open is over. -/
def openOver : OpenBackground → Bool
  | .refused _ => true
  | .raised _ => true
  | .returned _ => true
  | _ => false

/-- The background task of a request is over, or there is none. -/
def isOver : OperationTask → Bool
  | .answered _ => true
  | .openOrder _ _ background => openOver background
  | .closeOrder task => OrderClose.finished task

/-- The status of an operation tells what the adapter did: if it is confirmed, an adapter that was
called for it returned success, and if an adapter that was called for it returned no success or
raised, it ends with an error. -/
structure Truthful (p : TaskPool OperationShared OperationTask) (id : String) : Prop where
  confirmed : ∀ op, p.shared.operations.store.get? id = some op → op.status = .confirmed →
    ∃ t ∈ p.tasks, operationId? t = some id ∧ callOutcome? t = some .succeeded
  failed : ∀ t ∈ p.tasks, operationId? t = some id → isOver t = true →
    (callOutcome? t = some .failed ∨ callOutcome? t = some .raised) →
    ∃ op, p.shared.operations.store.get? id = some op ∧ op.status = .error

/-- What the status of a request tells about the call of the adapter: it is confirmed when the
request is over and the adapter returned, with or without success. -/
theorem status_eq_confirmed_iff (t : OperationTask) (ht : operationId? t ≠ none) :
    status t = .confirmed ↔ isOver t = true ∧
      (callOutcome? t = some .succeeded ∨ callOutcome? t = some .failed) := by
  have hsuccess (b : Bool) :
      CallOutcome.ofSuccess b = .succeeded ∨ CallOutcome.ofSuccess b = .failed := by
    cases b <;> decide
  cases t with
  | answered operationId => exact absurd rfl ht
  | openOrder operationId body background =>
      cases background with
      | returned result =>
          simpa [status, openStatus, isOver, openOver, callOutcome?, openOutcome?] using
            hsuccess result.success
      | raised e =>
          simp [status, openStatus, isOver, openOver, callOutcome?, openOutcome?]
      | _ => simp [status, openStatus, isOver, openOver, callOutcome?, openOutcome?]
  | closeOrder task =>
      obtain ⟨body, phase⟩ := task
      cases phase with
      | cached response => exact absurd rfl ht
      | running operationId background handler =>
          -- before the adapter returned the operation is in progress or pending
          have hwaiting : closeStatus .scheduled handler ≠ .confirmed ∧
              closeStatus .closing handler ≠ .confirmed ∧
              ∀ b, closeStatus (.reconciling b) handler ≠ .confirmed := by
            simp only [closeStatus, OrderClose.outcome?]
            split <;> simp
          cases background with
          | returned response =>
              simpa [status, closeStatus, isOver, OrderClose.finished, OrderClose.outcome?,
                callOutcome?, closeOutcome?] using hsuccess response.success
          | refused e | raised e =>
              simp [status, closeStatus, isOver, OrderClose.finished, OrderClose.outcome?,
                callOutcome?, closeOutcome?]
          | _ =>
              simp [status, isOver, OrderClose.finished, OrderClose.outcome?, hwaiting]

/-- A request that is over after its adapter raised has an operation with an error. -/
theorem status_of_raised {t : OperationTask} (hover : isOver t = true)
    (hraised : callOutcome? t = some .raised) : status t = .error := by
  have hsuccess (b : Bool) : CallOutcome.ofSuccess b ≠ .raised := by cases b <;> decide
  cases t with
  | answered operationId => cases hraised
  | openOrder operationId body background =>
      cases background with
      | raised e => rfl
      | returned result | reconciling result =>
          exact absurd (Option.some.inj hraised) (hsuccess result.success)
      | _ => cases hraised
  | closeOrder task =>
      obtain ⟨body, phase⟩ := task
      cases phase with
      | cached response => cases hraised
      | running operationId background handler =>
          cases background with
          | raised e => rfl
          | returned response =>
              exact absurd (Option.some.inj hraised) (hsuccess response.success)
          | reconciling success => exact absurd (Option.some.inj hraised) (hsuccess success)
          | _ => cases hraised

/-- Every operation that is stored is that of a request. -/
def Owned (p : TaskPool OperationShared OperationTask) : Prop :=
  ∀ id op, p.shared.operations.store.get? id = some op → ∃ t ∈ p.tasks, operationId? t = some id

/-- A step keeps the operations those of requests. -/
theorem owned_step {p q : TaskPool OperationShared OperationTask}
    {l : TaskLabel OperationRequest OperationAnswer Empty} (hp : Owned p)
    (h : (system core).step p l = some q) : Owned q := by
  intro id op hop
  cases l with
  | enter r =>
      obtain ⟨w, t, he, rfl⟩ := TaskSystem.step_enter.1 h
      have hold : p.shared.operations.store.get? id = some op →
          ∃ u ∈ p.tasks ++ [t], operationId? u = some id := by
        intro hop'
        obtain ⟨u, hu, hid⟩ := hp id op hop'
        exact ⟨u, List.mem_append_left _ hu, hid⟩
      rcases enter_cases (Option.some.inj he : enter p.shared r = (w, t)) with ⟨hops, -⟩ |
        ⟨operationId, kind, venue, symbol, positionId, -, hops, hid, -⟩
      · rw [hops] at hop
        exact hold hop
      · by_cases hne : id = operationId
        · exact ⟨t, List.mem_append_right _ (List.mem_singleton_self t), hne ▸ hid⟩
        · rw [hops, get?_create_of_ne hne] at hop
          exact hold hop
  | resume i a =>
      obtain ⟨t, w, t', ht, hr, rfl⟩ := TaskSystem.step_resume.1 h
      obtain ⟨hid, operationId, hopid, hupdates⟩ := resume_moves hr
      have hi : i < p.tasks.length := (List.getElem?_eq_some_iff.1 ht).1
      by_cases hne : id = operationId
      · exact ⟨t', List.mem_iff_getElem?.2 ⟨i, by simp [hi]⟩, hne ▸ hid.trans hopid⟩
      · dsimp only at hop
        rw [hupdates.get?_of_ne hne] at hop
        obtain ⟨u, hu, huid⟩ := hp id op hop
        obtain ⟨j, hj⟩ := List.mem_iff_getElem?.1 hu
        -- the owner of another operation is another task
        have hji : i ≠ j := by
          rintro rfl
          obtain rfl : t = u := Option.some.inj (ht.symm.trans hj)
          exact hne (Option.some.inj (huid.symm.trans hopid))
        exact ⟨u, List.mem_iff_getElem?.2 ⟨j, by simpa [List.getElem?_set, hji] using hj⟩, huid⟩
  | restart k => exact k.elim

/-- In every state that a run from an empty process reaches, an operation is truthful if and only
if no request that is over called an adapter for it that returned no success. -/
theorem truthful_iff {openCache : Dict String String} {closeCache : Dict CloseKey CachedClose}
    {log : List Operation} {ls : List (TaskLabel OperationRequest OperationAnswer Empty)}
    (hfresh : Transition.Meets (system core).step Fresh
      ⟨⟨⟨Dict.empty, log⟩, openCache, closeCache⟩, []⟩ ls)
    {p : TaskPool OperationShared OperationTask}
    (h : Transition.exec (system core).step ⟨⟨⟨Dict.empty, log⟩, openCache, closeCache⟩, []⟩ ls =
      some p) (id : String) :
    Truthful p id ↔ ∀ t ∈ p.tasks, operationId? t = some id → isOver t = true →
      callOutcome? t ≠ some .failed := by
  obtain ⟨hinv, howned⟩ : Inv p ∧ Owned p := by
    refine Transition.exec_invariant_of_meets (I := fun p => Inv p ∧ Owned p) ?_
      ⟨TaskPool.inv_of_nil trivial, fun id op hop => ?_⟩ hfresh h
    · rintro p' l q ⟨hp', howned⟩ hl hstep
      exact ⟨inv_step hp' hl hstep, owned_step howned hstep⟩
    · rw [Dict.get?_empty] at hop
      cases hop
  constructor
  · intro htruthful t ht hid hover hfailed
    obtain ⟨op, hop, herror⟩ := htruthful.failed t ht hid hover (Or.inl hfailed)
    obtain ⟨op', hop', hstatus⟩ := hinv.mem ht id hid
    obtain rfl : op' = op := Option.some.inj (hop'.symm.trans hop)
    -- a request that is over without success is confirmed as well
    have hconfirmed : status t = .confirmed :=
      (status_eq_confirmed_iff t (by rw [hid]; exact Option.some_ne_none id)).2
        ⟨hover, Or.inr hfailed⟩
    rw [herror, hconfirmed] at hstatus
    cases hstatus
  · intro hsuccess
    refine ⟨fun op hop hconfirmed => ?_, fun t ht hid hover hcall => ?_⟩
    · obtain ⟨t, ht, hid⟩ := howned id op hop
      obtain ⟨op', hop', hstatus⟩ := hinv.mem ht id hid
      obtain rfl : op' = op := Option.some.inj (hop'.symm.trans hop)
      rw [hconfirmed] at hstatus
      obtain ⟨hover, hcall⟩ :=
        (status_eq_confirmed_iff t (by rw [hid]; exact Option.some_ne_none id)).1 hstatus.symm
      exact ⟨t, ht, hid, hcall.resolve_right (hsuccess t ht hid hover)⟩
    · obtain ⟨op, hop, hstatus⟩ := hinv.mem ht id hid
      have hraised := hcall.resolve_left (hsuccess t ht hid hover)
      exact ⟨op, hop, hstatus.trans (status_of_raised hover hraised)⟩

/-! ### Runs at the paper venue -/

/-- An order at the paper venue. -/
def paperOpenBody : OrderOpenRequest := TradingCore.paperOrder "BTC"

/-- The run of some requests of a fresh process whose venues are all at the paper adapter. -/
def runRequests (ls : List (TaskLabel OperationRequest OperationAnswer Empty)) :
    Option (TaskPool OperationShared OperationTask) :=
  Transition.exec (system OrderClose.paperCore).step
    ⟨⟨⟨Dict.empty, []⟩, Dict.empty, Dict.empty⟩, []⟩ ls

/-- A close whose wait is over before the adapter returns. -/
def lateClose : List (TaskLabel OperationRequest OperationAnswer Empty) :=
  [.enter (.closeOrder OrderClose.paperCloseBody "op1"), .resume 0 (.closeOrder .run),
    .resume 0 (.closeOrder .handler)]

/-- The rest of a close, with what the adapter returns. -/
def endOfClose (success : Bool) : List (TaskLabel OperationRequest OperationAnswer Empty) :=
  [.resume 0 (.closeOrder (.adapter (.ok success))), .resume 0 (.closeOrder .reconciled)]

/-- An open beside the close, with what the adapter returns. -/
def openBeside (success : Bool) : List (TaskLabel OperationRequest OperationAnswer Empty) :=
  [.enter (.openOrder paperOpenBody "op2"), .resume 1 (.openOrder (.gate none)),
    .resume 1 (.openOrder (.listing (.ok []))),
    .resume 1 (.openOrder (.adapter (.ok ⟨success, "", none, none, none, none, none, none, none,
      none, none, none, none⟩))),
    .resume 1 (.openOrder .reconciled)]

/-- The status of an operation. -/
def statusOf (p : TaskPool OperationShared OperationTask) (id : String) : Option OperationStatus :=
  (p.shared.operations.store.get? id).map Operation.status

/-- A pending close is confirmed when its adapter returns, and keeps its status while an order is
opened beside it. -/
theorem terminal_absorbing_late_close :
    ∃ p q op op', runRequests lateClose = some p ∧
      Transition.exec (system OrderClose.paperCore).step p (endOfClose true ++ openBeside true) =
        some q ∧
      p.shared.operations.store.get? "op1" = some op ∧ op.status = .pending ∧
      q.shared.operations.store.get? "op1" = some op' ∧ (op' = op ∨ terminal op'.status = true) := by
  have hrun : ((runRequests lateClose).map fun p => (statusOf p "op1",
      (Transition.exec (system OrderClose.paperCore).step p
        (endOfClose true ++ openBeside true)).isSome)) = some (some .pending, true) := by
    decide
  obtain ⟨p, hp, hp'⟩ := Option.map_eq_some_iff.1 hrun
  obtain ⟨hstatus, hsome⟩ := Prod.mk.inj hp'
  obtain ⟨q, hq⟩ := Option.isSome_iff_exists.1 hsome
  obtain ⟨op, hop, hpending⟩ := Option.map_eq_some_iff.1 hstatus
  obtain ⟨op', hop', -, hlater⟩ := terminal_absorbing (by decide) hp hq hop
  exact ⟨p, q, op, op', hp, hq, hop, hpending, hop', hlater hpending⟩

/-- A close whose adapter returns success is truthful. -/
theorem truthful_iff_late_close :
    ∃ p, runRequests (lateClose ++ endOfClose true) = some p ∧ Truthful p "op1" := by
  have hrun : ((runRequests (lateClose ++ endOfClose true)).map fun p =>
      p.tasks.all fun t => callOutcome? t != some .failed) = some true := by
    decide
  obtain ⟨p, hp, hall⟩ := Option.map_eq_some_iff.1 hrun
  refine ⟨p, hp, (truthful_iff (by decide) hp "op1").2 fun t ht _ _ => ?_⟩
  simpa using List.all_eq_true.1 hall t ht

/-- A close and an open whose adapters return no success are confirmed. -/
theorem unsuccessful_confirmed :
    ∃ p, runRequests (lateClose ++ endOfClose false ++ openBeside false) = some p ∧
      statusOf p "op1" = some .confirmed ∧ statusOf p "op2" = some .confirmed ∧
      p.tasks.map callOutcome? = [some .failed, some .failed] ∧
      ¬ Truthful p "op1" ∧ ¬ Truthful p "op2" := by
  have hrun : ((runRequests (lateClose ++ endOfClose false ++ openBeside false)).map fun p =>
      (statusOf p "op1", statusOf p "op2", p.tasks.map callOutcome?)) =
      some (some .confirmed, some .confirmed, [some .failed, some .failed]) := by
    decide
  obtain ⟨p, hp, hp'⟩ := Option.map_eq_some_iff.1 hrun
  obtain ⟨hop1, hp''⟩ := Prod.mk.inj hp'
  obtain ⟨hop2, hcalls⟩ := Prod.mk.inj hp''
  have hnot (id : String) (hid : statusOf p id = some .confirmed) : ¬ Truthful p id := by
    intro htruthful
    obtain ⟨op, hop, hconfirmed⟩ := Option.map_eq_some_iff.1 hid
    obtain ⟨t, ht, -, hsucceeded⟩ := htruthful.confirmed op hop hconfirmed
    have hmem : callOutcome? t ∈ p.tasks.map callOutcome? := List.mem_map_of_mem ht
    rw [hcalls, hsucceeded] at hmem
    exact absurd hmem (by decide)
  exact ⟨p, hp, hop1, hop2, hcalls, hnot "op1" hop1, hnot "op2" hop2⟩

end OperationTasks
