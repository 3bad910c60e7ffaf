/-
**Closing with a timeout, and the idempotency of closes.**

`close_with_timeout` starts the close as a background task and waits for it with a timeout.  If
the close is over in time its result is returned; otherwise the operation is marked pending, the
client gets a 202 and polls, and the background task goes on.  A close with a client close id
leaves its result in a cache, and a later request with the same venue, position and id is answered
from there.  The cache is read when a request enters and written when a close is over, so two
requests that overlap both reach the adapter.

A request and its background task are one task of the system.  Its labels say whether the
background task or the waiting handler runs.

Main definitions:

* `CloseTask`, `CloseShared` — a request in progress, and what the requests share;
* `OrderClose.system` — the requests as a system of tasks;
* `OrderClose.NoOverlap` — no request enters while a close with its key is running.

Main results:

* `OrderClose.close_idempotent` — without overlap the adapter is asked at most once per key, and
  all answers agree;
* `OrderClose.overlapping_closes` — two overlapping requests both reach the adapter, and disagree.
-/

import Brokerage.OperationService
import Brokerage.TaskPool
import Brokerage.TradingCore

set_option relaxedAutoImplicit false
set_option autoImplicit false

/-- What a close is told apart by: venue, position and client close id. -/
abbrev CloseKey := String × String × String

/-- The key of a request. -/
def OrderCloseRequest.key (body : OrderCloseRequest) : CloseKey :=
  (body.venue, body.positionId, body.clientCloseId.getD "")

/-- A result in the cache. -/
structure CachedClose where
  success : Bool
  txHash : String
  positionId : String
  deriving DecidableEq

/-- The response to a request whose close is over. -/
structure CloseResponse where
  success : Bool
  positionId : String
  txHash : String
  operationId : Option String := none
  deriving DecidableEq

/-- Where the background task of a request is. -/
inductive CloseBackground
  /-- It has not run yet. -/
  | scheduled
  /-- It raised before the adapter was asked. -/
  | refused (e : CoreError)
  /-- The adapter was asked to close. -/
  | closing
  /-- The adapter raised. -/
  | raised (e : CoreError)
  /-- The adapter returned, and the reconciliation runs. -/
  | reconciling (success : Bool)
  /-- It returned a response. -/
  | returned (response : CloseResponse)
  deriving DecidableEq

/-- Where the handler of a request is. -/
inductive CloseHandler
  | waiting
  /-- It returned the outcome of the background task. -/
  | completed (outcome : Except CoreError CloseResponse)
  /-- It answered 202, pending. -/
  | timedOut
  deriving DecidableEq

/-- A request: answered from the cache, or with an operation, a background task and a handler. -/
inductive ClosePhase
  | cached (response : CloseResponse)
  | running (operationId : String) (background : CloseBackground) (handler : CloseHandler)
  deriving DecidableEq

/-- A request in progress. -/
structure CloseTask where
  body : OrderCloseRequest
  phase : ClosePhase
  deriving DecidableEq

/-- What the requests share. -/
structure CloseShared where
  operations : OperationService
  cache : Dict CloseKey CachedClose
  deriving DecidableEq

/-- What a request is resumed with. -/
inductive CloseAnswer
  /-- The background task begins. -/
  | run
  /-- The adapter returns or raises. -/
  | adapter (result : Except String Bool)
  /-- The reconciliation is over. -/
  | reconciled
  /-- The wait of the handler is over, by the end of the background task or by the timeout. -/
  | handler
  deriving DecidableEq

namespace OrderClose

variable (core : TradingCore)

/-! ### The service -/

/-- The cached result for a key; requests without a client close id have none. -/
def getCachedCloseResponse (w : CloseShared) (key : CloseKey) : Option CachedClose :=
  if key.2.2 = "" then none else w.cache.get? key

/-- Leaving the result of a close in the cache. -/
def cacheCloseResponse (w : CloseShared) (key : CloseKey) (success : Bool) (txHash : String) :
    CloseShared :=
  if key.2.2 = "" then w
  else { w with cache := w.cache.set key ⟨success, txHash, key.2.1⟩ }

/-- A request enters: it is answered from the cache, or an operation is created and its close is
scheduled. -/
def enter (w : CloseShared) (body : OrderCloseRequest) (operationId : String) :
    CloseShared × CloseTask :=
  match getCachedCloseResponse w body.key with
  | some cached =>
      (w, ⟨body, .cached ⟨cached.success, cached.positionId, cached.txHash, none⟩⟩)
  | none =>
      ({ w with operations :=
          w.operations.create operationId .closeOrder body.venue "" body.positionId },
        ⟨body, .running operationId .scheduled .waiting⟩)

/-- The background task raises. -/
def fail (w : CloseShared) (operationId : String) (e : CoreError) : CloseShared :=
  { w with operations := w.operations.update operationId .error "" "" (some ⟨none, e⟩) }

/-- The response of a close that the adapter returned from. -/
def responseOf (body : OrderCloseRequest) (operationId : String) (success : Bool) :
    CloseResponse :=
  ⟨success, body.positionId, "", some operationId⟩

/-- The background task is over: the operation is confirmed, whatever the adapter returned, and
the result cached. -/
def finish (w : CloseShared) (body : OrderCloseRequest) (operationId : String) (success : Bool) :
    CloseShared :=
  cacheCloseResponse
    { w with operations := w.operations.update operationId .confirmed body.positionId "" none }
    body.key success ""

/-- The outcome of a background task that is over. -/
def outcome? : CloseBackground → Option (Except CoreError CloseResponse)
  | .refused e => some (.error e)
  | .raised e => some (.error e)
  | .returned response => some (.ok response)
  | _ => none

/-- One step of a request. -/
def resume (w : CloseShared) (t : CloseTask) : CloseAnswer → Option (CloseShared × CloseTask)
  | .run =>
      match t.phase with
      | .running operationId .scheduled handler =>
          match core.closeTarget t.body with
          | .error e =>
              some (fail w operationId e, { t with phase := .running operationId (.refused e) handler })
          | .ok _ => some (w, { t with phase := .running operationId .closing handler })
      | _ => none
  | .adapter (.error text) =>
      match t.phase with
      | .running operationId .closing handler =>
          some (fail w operationId (.raised text),
            { t with phase := .running operationId (.raised (.raised text)) handler })
      | _ => none
  | .adapter (.ok success) =>
      match t.phase with
      | .running operationId .closing handler =>
          some (w, { t with phase := .running operationId (.reconciling success) handler })
      | _ => none
  | .reconciled =>
      match t.phase with
      | .running operationId (.reconciling success) handler =>
          some (finish w t.body operationId success,
            { t with phase :=
                .running operationId (.returned (responseOf t.body operationId success)) handler })
      | _ => none
  | .handler =>
      match t.phase with
      | .running operationId background .waiting =>
          match outcome? background with
          | some outcome =>
              some (w, { t with phase := .running operationId background (.completed outcome) })
          | none =>
              some ({ w with operations :=
                  w.operations.update operationId .pending t.body.positionId "" none },
                { t with phase := .running operationId background .timedOut })
      | _ => none

/-- The requests of one process. -/
def system : TaskSystem CloseShared CloseTask (OrderCloseRequest × String) CloseAnswer Empty where
  enter w r := some (enter w r.1 r.2)
  resume w t a := resume core w t a
  restart _ k := k.elim

/-! ### What is counted -/

/-- The adapter was asked to close. -/
def asked : CloseBackground → Bool
  | .scheduled => false
  | .refused _ => false
  | _ => true

/-- The adapter raised. -/
def raisedByAdapter : CloseBackground → Bool
  | .raised _ => true
  | _ => false

/-- The close of the request is over, or there is none. -/
def finished (t : CloseTask) : Bool :=
  match t.phase with
  | .cached _ => true
  | .running _ background _ => (outcome? background).isSome

/-- The adapter was asked to close for the request. -/
def adapterStarted (t : CloseTask) : Bool :=
  match t.phase with
  | .cached _ => false
  | .running _ background _ => asked background

/-- The adapter raised for the request. -/
def adapterRaised (t : CloseTask) : Bool :=
  match t.phase with
  | .cached _ => false
  | .running _ background _ => raisedByAdapter background

/-- The value of `success` that a handler returned. -/
def answered? : CloseHandler → Option Bool
  | .completed (.ok response) => some response.success
  | _ => none

/-- The value of `success` in the response to a request that is completed. -/
def success? (t : CloseTask) : Option Bool :=
  match t.phase with
  | .cached response => some response.success
  | .running _ _ handler => answered? handler

/-- No request enters while a close with its key is running. -/
def NoOverlap (key : CloseKey) (p : TaskPool CloseShared CloseTask) :
    TaskLabel (OrderCloseRequest × String) CloseAnswer Empty → Prop
  | .enter (body, _) => body.key = key → ∀ t ∈ p.tasks, t.body.key = key → finished t = true
  | _ => True

instance (key : CloseKey) (p : TaskPool CloseShared CloseTask)
    (l : TaskLabel (OrderCloseRequest × String) CloseAnswer Empty) :
    Decidable (NoOverlap key p l) := by
  unfold NoOverlap
  split <;> infer_instance

/-! ### What a step can do -/

/-- The steps of a request, by the phase they are taken from. -/
inductive CloseStep (w : CloseShared) (body : OrderCloseRequest) (op : String) :
    CloseBackground → CloseHandler → CloseShared → CloseBackground → CloseHandler → Prop
  | refused (e handler) : CloseStep w body op .scheduled handler (fail w op e) (.refused e) handler
  | started (handler) : CloseStep w body op .scheduled handler w .closing handler
  | adapterRaises (text handler) : CloseStep w body op .closing handler
      (fail w op (.raised text)) (.raised (.raised text)) handler
  | adapterReturns (success handler) :
      CloseStep w body op .closing handler w (.reconciling success) handler
  | reconciled (success handler) : CloseStep w body op (.reconciling success) handler
      (finish w body op success) (.returned (responseOf body op success)) handler
  | completed (background outcome) (h : outcome? background = some outcome) :
      CloseStep w body op background .waiting w background (.completed outcome)
  | timedOut (background) (h : outcome? background = none) :
      CloseStep w body op background .waiting
        { w with operations := w.operations.update op .pending body.positionId "" none }
        background .timedOut

theorem resume_cases {core : TradingCore} {w w' : CloseShared} {t t' : CloseTask} {a : CloseAnswer}
    (h : resume core w t a = some (w', t')) :
    ∃ body op bg handler bg' handler', t = ⟨body, .running op bg handler⟩ ∧
      t' = ⟨body, .running op bg' handler'⟩ ∧ CloseStep w body op bg handler w' bg' handler' := by
  obtain ⟨body, phase⟩ := t
  cases phase with
  | cached response => cases a with
      | adapter result => cases result <;> cases h
      | _ => cases h
  | running op bg handler =>
      refine ⟨body, op, bg, handler, ?_⟩
      -- one case for each pair of a phase and an answer that the code knows
      unfold resume at h
      split at h <;> split at h <;> try cases h
      · rename_i hphase
        cases hphase
        split at h
        · cases h
          exact ⟨_, _, rfl, rfl, .refused _ _⟩
        · cases h
          exact ⟨_, _, rfl, rfl, .started _⟩
      · rename_i hphase
        cases hphase
        exact ⟨_, _, rfl, rfl, .adapterRaises _ _⟩
      · rename_i hphase
        cases hphase
        exact ⟨_, _, rfl, rfl, .adapterReturns _ _⟩
      · rename_i hphase
        cases hphase
        exact ⟨_, _, rfl, rfl, .reconciled _ _⟩
      · rename_i hphase
        cases hphase
        split at h
        · cases h
          exact ⟨_, _, rfl, rfl, .completed _ _ ‹_›⟩
        · cases h
          exact ⟨_, _, rfl, rfl, .timedOut _ ‹_›⟩

/-! ### The invariant -/

variable {key : CloseKey}

/-- The adapter was asked and has not raised. -/
def live (t : CloseTask) : Bool := adapterStarted t && !adapterRaised t

/-- The value of `success` that a background task returned. -/
def returned? : CloseBackground → Option Bool
  | .returned response => some response.success
  | _ => none

/-- The value of `success` that the request has settled on. -/
def settled? (t : CloseTask) : Option Bool :=
  match t.phase with
  | .cached response => some response.success
  | .running _ background _ => returned? background

/-- What holds of a request with the key: while it runs the cache has nothing for the key, and
when it has settled the cache has its value. -/
structure Consistent (key : CloseKey) (w : CloseShared) (t : CloseTask) : Prop where
  running : finished t = false → w.cache.get? key = none
  settled : ∀ b, settled? t = some b → ∃ c, w.cache.get? key = some c ∧ c.success = b
  answered : ∀ b, success? t = some b → settled? t = some b

/-- The part of the invariant about one request. -/
def TaskInv (key : CloseKey) (w : CloseShared) (t : CloseTask) : Prop :=
  t.body.key = key → Consistent key w t

/-- Two requests with the key do not both run, and are not both live. -/
def Apart (key : CloseKey) (t u : CloseTask) : Prop :=
  t.body.key = key → u.body.key = key →
    (finished t = true ∨ finished u = true) ∧ ¬ (live t = true ∧ live u = true)

theorem Apart.symm {t u : CloseTask} (h : Apart key t u) : Apart key u t := fun hu ht =>
  ⟨(h ht hu).1.symm, fun hlive => (h ht hu).2 hlive.symm⟩

theorem Consistent.of_cache {w w' : CloseShared} {t : CloseTask} (h : Consistent key w t)
    (hcache : w'.cache.get? key = w.cache.get? key) : Consistent key w' t where
  running hrun := hcache.trans (h.running hrun)
  settled b hb := hcache ▸ h.settled b hb
  answered := h.answered

/-- A live request that is over has left its value in the cache. -/
theorem Consistent.cached_of_live {w : CloseShared} {t : CloseTask} (h : Consistent key w t)
    (hlive : live t = true) (hfin : finished t = true) : w.cache.get? key ≠ none := by
  have hsettled : ∃ b, settled? t = some b := by
    obtain ⟨body, phase⟩ := t
    rcases phase with response | ⟨op, bg, handler⟩
    · exact ⟨_, rfl⟩
    · cases bg with
      | returned response => exact ⟨_, rfl⟩
      | scheduled | closing | reconciling success => cases hfin
      | refused e | raised e => cases hlive
  obtain ⟨b, hb⟩ := hsettled
  obtain ⟨c, hc, -⟩ := h.settled b hb
  rw [hc]
  exact Option.some_ne_none c

theorem finish_cache_self {w : CloseShared} {body : OrderCloseRequest} (hkey : body.key = key)
    (hcid : key.2.2 ≠ "") (op : String) (success : Bool) :
    (finish w body op success).cache.get? key = some ⟨success, "", key.2.1⟩ := by
  subst hkey
  simp only [finish, cacheCloseResponse, if_neg hcid, Dict.get?_set_self]

theorem finish_cache_of_ne {w : CloseShared} {body : OrderCloseRequest} (hkey : body.key ≠ key)
    (op : String) (success : Bool) :
    (finish w body op success).cache.get? key = w.cache.get? key := by
  unfold finish cacheCloseResponse
  split
  · rfl
  · exact Dict.get?_set_of_ne _ _ (Ne.symm hkey)

/-- A step of a request with another key leaves what the cache has for the key alone. -/
theorem CloseStep.cache_of_ne {w w' : CloseShared} {body : OrderCloseRequest} {op : String}
    {bg bg' : CloseBackground} {handler handler' : CloseHandler}
    (h : CloseStep w body op bg handler w' bg' handler') (hkey : body.key ≠ key) :
    w'.cache.get? key = w.cache.get? key := by
  cases h with
  | reconciled success => exact finish_cache_of_ne hkey op success
  | _ => rfl

/-- A step of a request with the key keeps it consistent; the cache changes only when the close is
over, which was running before. -/
theorem CloseStep.consistent {w w' : CloseShared} {body : OrderCloseRequest} {op : String}
    {bg bg' : CloseBackground} {handler handler' : CloseHandler}
    (h : CloseStep w body op bg handler w' bg' handler') (hkey : body.key = key)
    (hcid : key.2.2 ≠ "") (hold : Consistent key w ⟨body, .running op bg handler⟩) :
    Consistent key w' ⟨body, .running op bg' handler'⟩ ∧
      (w'.cache.get? key = w.cache.get? key ∨
        finished ⟨body, .running op bg handler⟩ = false) := by
  cases h with
  | refused e handler =>
      refine ⟨⟨fun hf => (by cases hf), fun b hb => (by cases hb), fun b hb => ?_⟩, Or.inl rfl⟩
      exact absurd (hold.answered b hb) (by simp [settled?, returned?])
  | started handler =>
      refine ⟨⟨fun _ => hold.running rfl, fun b hb => (by cases hb), fun b hb => ?_⟩, Or.inl rfl⟩
      exact absurd (hold.answered b hb) (by simp [settled?, returned?])
  | adapterRaises text handler =>
      refine ⟨⟨fun hf => (by cases hf), fun b hb => (by cases hb), fun b hb => ?_⟩, Or.inl rfl⟩
      exact absurd (hold.answered b hb) (by simp [settled?, returned?])
  | adapterReturns success handler =>
      refine ⟨⟨fun _ => hold.running rfl, fun b hb => (by cases hb), fun b hb => ?_⟩, Or.inl rfl⟩
      exact absurd (hold.answered b hb) (by simp [settled?, returned?])
  | reconciled success handler =>
      refine ⟨⟨fun hf => (by cases hf), fun b hb => ?_, fun b hb => ?_⟩, Or.inr rfl⟩
      · cases hb
        exact ⟨_, finish_cache_self hkey hcid op success, rfl⟩
      · exact absurd (hold.answered b hb) (by simp [settled?, returned?])
  | completed bg outcome houtcome =>
      refine ⟨⟨hold.running, hold.settled, fun b hb => ?_⟩, Or.inl rfl⟩
      cases bg with
      | returned r => cases houtcome; exact hb
      | _ => cases houtcome <;> cases hb
  | timedOut bg houtcome =>
      exact ⟨⟨hold.running, hold.settled, fun b hb => by cases hb⟩, Or.inl rfl⟩

/-- A step of a request makes it live only by starting the adapter, and never makes it run. -/
theorem CloseStep.live {w w' : CloseShared} {body : OrderCloseRequest} {op : String}
    {bg bg' : CloseBackground} {handler handler' : CloseHandler}
    (h : CloseStep w body op bg handler w' bg' handler') :
    (finished ⟨body, .running op bg handler⟩ = true →
      finished ⟨body, .running op bg' handler'⟩ = true) ∧
    (OrderClose.live ⟨body, .running op bg' handler'⟩ = true →
      OrderClose.live ⟨body, .running op bg handler⟩ = true ∨
        finished ⟨body, .running op bg handler⟩ = false) := by
  cases h with
  | started handler => exact ⟨id, fun _ => Or.inr rfl⟩
  | adapterRaises text handler => exact ⟨fun _ => rfl, fun hl => by cases hl⟩
  | _ => exact ⟨fun hf => by first | exact hf | rfl, fun hl => Or.inl hl⟩

/-! ### Idempotency -/

/-- The invariant. -/
abbrev CloseInv (key : CloseKey) : TaskPool CloseShared CloseTask → Prop :=
  TaskPool.Inv (fun _ => True) (TaskInv key) (Apart key)

/-- A request enters while no close with its key is running. -/
theorem closeInv_enter {p : TaskPool CloseShared CloseTask} (hcid : key.2.2 ≠ "")
    (hp : CloseInv key p) {body : OrderCloseRequest} {op : String}
    (hP : NoOverlap key p (.enter (body, op))) {w : CloseShared} {t : CloseTask}
    (h : enter p.shared body op = (w, t)) :
    TaskInv key w t ∧ ∀ u ∈ p.tasks, TaskInv key w u ∧ Apart key t u := by
  unfold enter at h
  split at h
  · rename_i cached hcached
    cases h
    refine ⟨fun hkey => ?_, fun u hu => ⟨hp.mem hu, fun hkey _ => ⟨Or.inl rfl, fun hl => by cases hl.1⟩⟩⟩
    have hget : p.shared.cache.get? key = some cached := by
      have hkey' : body.key = key := hkey
      rwa [getCachedCloseResponse, hkey', if_neg hcid] at hcached
    refine ⟨fun hf => (by cases hf), fun b hb => ?_, fun b hb => hb⟩
    cases hb
    exact ⟨cached, hget, rfl⟩
  · rename_i hcached
    cases h
    refine ⟨fun hkey => ?_, fun u hu => ⟨fun hu' => ?_, fun hkey hu' =>
      ⟨Or.inr (hP hkey u hu hu'), fun hl => by cases hl.1⟩⟩⟩
    · have hkey' : body.key = key := hkey
      refine ⟨fun _ => ?_, fun b hb => (by cases hb), fun b hb => by cases hb⟩
      rwa [getCachedCloseResponse, hkey', if_neg hcid] at hcached
    · exact (hp.mem hu hu').of_cache rfl

/-- A step of a request. -/
theorem closeInv_resume {p : TaskPool CloseShared CloseTask} (hcid : key.2.2 ≠ "")
    (hp : CloseInv key p) {i : ℕ} {body : OrderCloseRequest} {op : String}
    {bg bg' : CloseBackground} {handler handler' : CloseHandler} {w : CloseShared}
    (ht : p.tasks[i]? = some ⟨body, .running op bg handler⟩)
    (h : CloseStep p.shared body op bg handler w bg' handler') :
    TaskInv key w ⟨body, .running op bg' handler'⟩ ∧
      ∀ (j : ℕ) (u : CloseTask), j ≠ i → p.tasks[j]? = some u →
        TaskInv key w u ∧ Apart key ⟨body, .running op bg' handler'⟩ u := by
  by_cases hkey : body.key = key
  · have hold := hp.task i _ ht hkey
    obtain ⟨hnew, hcache⟩ := h.consistent hkey hcid hold
    obtain ⟨hfin, hlive⟩ := h.live
    refine ⟨fun _ => hnew, fun j u hj hu => ⟨fun hukey => ?_, fun _ hukey => ⟨?_, ?_⟩⟩⟩
    · have huold := hp.task j u hu hukey
      rcases hcache with hsame | hrunning
      · exact huold.of_cache hsame
      · -- this close was running, so the other request is over and has not settled
        have hufin : finished u = true :=
          (hp.pair i j _ u (Ne.symm hj) ht hu hkey hukey).1.resolve_left (by rw [hrunning]; decide)
        have hnone := hold.running hrunning
        have hunsettled : ∀ b, settled? u ≠ some b := by
          intro b hb
          obtain ⟨c, hc, -⟩ := huold.settled b hb
          rw [hnone] at hc
          cases hc
        refine ⟨fun hf => ?_, fun b hb => absurd hb (hunsettled b), fun b hb =>
          absurd (huold.answered b hb) (hunsettled b)⟩
        rw [hufin] at hf
        cases hf
    · exact (hp.pair i j _ u (Ne.symm hj) ht hu hkey hukey).1.imp_left hfin
    · rintro ⟨hl, hul⟩
      -- of two requests with the key at most one may still call the adapter
      have hpair := hp.pair i j _ u (Ne.symm hj) ht hu hkey hukey
      rcases hlive hl with hl | hrunning
      · exact hpair.2 ⟨hl, hul⟩
      · have hufin : finished u = true := hpair.1.resolve_left (by rw [hrunning]; decide)
        exact (hp.task j u hu hukey).cached_of_live hul hufin (hold.running hrunning)
  · refine ⟨fun hkey' => absurd hkey' hkey, fun j u _ hu => ⟨fun hukey => ?_, fun hkey' =>
      absurd hkey' hkey⟩⟩
    exact (hp.task j u hu hukey).of_cache (h.cache_of_ne hkey)

/-- If no request with a key enters while a close with that key is running, the adapter is asked
to close at most once for the key as long as it does not raise, and all requests with the key that
are completed have the same value of `success`. -/
theorem close_idempotent {core : TradingCore} (hcid : key.2.2 ≠ "") {w₀ : CloseShared}
    {ls : List (TaskLabel (OrderCloseRequest × String) CloseAnswer Empty)}
    (hoverlap : Transition.Meets (system core).step (NoOverlap key) ⟨w₀, []⟩ ls)
    {p : TaskPool CloseShared CloseTask}
    (h : Transition.exec (system core).step ⟨w₀, []⟩ ls = some p) :
    ((∀ t ∈ p.tasks, t.body.key = key → adapterRaised t = false) →
      p.tasks.countP (fun t => t.body.key = key && adapterStarted t) ≤ 1) ∧
    ∀ t ∈ p.tasks, ∀ u ∈ p.tasks, t.body.key = key → u.body.key = key →
      ∀ b b', success? t = some b → success? u = some b' → b = b' := by
  have hinv : CloseInv key p := by
    refine TaskSystem.exec_inv ⟨fun t u htu => htu.symm, ?_, ?_, ?_⟩ (TaskPool.inv_of_nil trivial)
      hoverlap h
    · rintro q ⟨body, op⟩ w t hq hP henter
      exact ⟨trivial, closeInv_enter hcid hq hP (Option.some.inj henter)⟩
    · rintro q i a t w t' hq - ht hstep
      obtain ⟨body, op, bg, handler, bg', handler', rfl, rfl, hclose⟩ := resume_cases hstep
      exact ⟨trivial, closeInv_resume hcid hq ht hclose⟩
    · rintro q k
      exact k.elim
  refine ⟨fun hraised => ?_, fun t ht u hu htkey hukey b b' hb hb' => ?_⟩
  · -- a request that called the adapter is live, unless the adapter raised
    have hlive : p.tasks.countP (fun t => decide (t.body.key = key) && live t) ≤ 1 :=
      hinv.countP_le_one fun t u htu hboth => by
        simp only [Bool.and_eq_true, decide_eq_true_eq] at hboth
        exact (htu hboth.1.1 hboth.2.1).2 ⟨hboth.1.2, hboth.2.2⟩
    refine le_trans (le_of_eq (List.countP_congr fun t ht => ?_)) hlive
    simp only [Bool.and_eq_true, decide_eq_true_eq, live]
    exact and_congr_right fun htkey => by simp [hraised t ht htkey]
  · obtain ⟨c, hc, rfl⟩ := (hinv.mem ht htkey).settled b ((hinv.mem ht htkey).answered b hb)
    obtain ⟨c', hc', rfl⟩ := (hinv.mem hu hukey).settled b' ((hinv.mem hu hukey).answered b' hb')
    rw [hc] at hc'
    cases hc'
    rfl

/-! ### Two requests with one key -/

/-- A request to close a paper position. -/
def paperCloseBody : OrderCloseRequest where
  venue := "paper"
  positionId := "paper_a"
  clientCloseId := some "c"
  percent_pos := by norm_num
  percent_le := by norm_num

/-- A service whose venues are all at the paper adapter. -/
def paperCore : TradingCore where
  cfg := {}
  adapterFactory := some fun _ => some .paper

/-- The run of some requests of a fresh process. -/
def runCloses (ls : List (TaskLabel (OrderCloseRequest × String) CloseAnswer Empty)) :
    Option (TaskPool CloseShared CloseTask) :=
  Transition.exec (system paperCore).step ⟨⟨OperationService.init, Dict.empty⟩, []⟩ ls

/-- The wait is over before the adapter returns; the client tries again when the close is over. -/
def retryAfterTimeout : List (TaskLabel (OrderCloseRequest × String) CloseAnswer Empty) :=
  [.enter (paperCloseBody, "op1"), .resume 0 .run, .resume 0 .handler,
    .resume 0 (.adapter (.ok true)), .resume 0 .reconciled, .enter (paperCloseBody, "op2")]

/-- The client tries again while the close is running: both reach the adapter, for which the
position is gone the second time. -/
def retryWhileClosing : List (TaskLabel (OrderCloseRequest × String) CloseAnswer Empty) :=
  [.enter (paperCloseBody, "op1"), .resume 0 .run, .enter (paperCloseBody, "op2"), .resume 1 .run,
    .resume 0 (.adapter (.ok true)), .resume 0 .reconciled, .resume 0 .handler,
    .resume 1 (.adapter (.ok false)), .resume 1 .reconciled, .resume 1 .handler]

/-- A retry after the close is over is answered from the cache. -/
theorem close_idempotent_retry :
    ∃ p, runCloses retryAfterTimeout = some p ∧ p.tasks.map success? = [none, some true] ∧
      p.tasks.countP (fun t => t.body.key = paperCloseBody.key && adapterStarted t) ≤ 1 := by
  have hrun : (runCloses retryAfterTimeout).map (fun p => (p.tasks.map success?,
      p.tasks.all fun t => !adapterRaised t)) = some ([none, some true], true) := by
    decide
  obtain ⟨p, hp, hp'⟩ := Option.map_eq_some_iff.1 hrun
  obtain ⟨hsuccess, hraised⟩ := Prod.mk.inj hp'
  refine ⟨p, hp, hsuccess, (close_idempotent (by decide) (by decide) hp).1 ?_⟩
  intro t ht _
  simpa using List.all_eq_true.1 hraised t ht

/-- Two requests that overlap: the adapter is asked twice, and the answers disagree. -/
theorem overlapping_closes :
    ∃ p, runCloses retryWhileClosing = some p ∧
      (∀ t ∈ p.tasks, t.body.key = paperCloseBody.key ∧ adapterRaised t = false) ∧
      p.tasks.countP (fun t => t.body.key = paperCloseBody.key && adapterStarted t) = 2 ∧
      p.tasks.map success? = [some true, some false] := by
  have hrun : (runCloses retryWhileClosing).map (fun p =>
      (p.tasks.all fun t => decide (t.body.key = paperCloseBody.key ∧ adapterRaised t = false),
        p.tasks.countP (fun t => t.body.key = paperCloseBody.key && adapterStarted t),
        p.tasks.map success?)) = some (true, 2, [some true, some false]) := by
    decide
  obtain ⟨p, hp, hp'⟩ := Option.map_eq_some_iff.1 hrun
  obtain ⟨hall, hcount, hsuccess⟩ : _ ∧ _ ∧ _ :=
    ⟨(Prod.mk.inj hp').1, (Prod.mk.inj (Prod.mk.inj hp').2).1, (Prod.mk.inj (Prod.mk.inj hp').2).2⟩
  exact ⟨p, hp, fun t ht => of_decide_eq_true (List.all_eq_true.1 hall t ht), hcount, hsuccess⟩

end OrderClose
