/-
**Starting services, and stopping them again.**

The services are started in the order of their registration.  Where one of them does not start, those
before it are stopped again.  At the end all are stopped in reverse order, whatever stops fail.  The
rollback of a failed start is a loop of its own, which goes forward and leaves out a service that does
not say that it is running: it is the reverse of the start only where there is next to nothing to stop.

Main definitions:

* `Service`, `ServiceCall`, `ServiceRun` — the services, and the calls of a run;
* `ServiceManager.startAll`, `ServiceManager.stopStartedServices`, `ServiceManager.stopAll` — the
  manager;
* `ServiceManager.FailsAt` — where a start fails;
* `ServiceManager.Lawful` — what is promised of a failed start and of the end.

Main results:

* `ServiceManager.startAll_of_failsAt` — what a failed start does;
* `ServiceManager.calls_stopAll` — the end;
* `ServiceManager.lawful_iff` — when a failed start is rolled back in reverse order.
-/

import Brokerage.Dict

set_option relaxedAutoImplicit false
set_option autoImplicit false

/-! ### The code -/

/-- A service: what its calls raise, if anything, and what they do to the world. -/
structure Service (ε W : Type) where
  start : W → Option ε × W
  stop : W → Option ε × W
  isRunning : W → Except ε Bool

/-- A call of a service. -/
inductive ServiceCall
  | start (name : String)
  | stop (name : String)
  deriving DecidableEq

/-- The world, and the calls that were made. -/
structure ServiceRun (W : Type) where
  world : W
  calls : List ServiceCall

/-- The manager: its services, in the order of their registration, and whether they are started. -/
structure ServiceManager (ε W : Type) where
  services : Dict String (Service ε W)
  started : Bool := false

namespace ServiceManager

variable {ε W : Type}

/-- `await service.start()`. -/
def callStart (name : String) (service : Service ε W) (r : ServiceRun W) : Option ε × ServiceRun W :=
  ((service.start r.world).1, ⟨(service.start r.world).2, r.calls ++ [.start name]⟩)

/-- `await service.stop()`: what it raises is logged. -/
def callStop (name : String) (service : Service ε W) (r : ServiceRun W) : ServiceRun W :=
  ⟨(service.stop r.world).2, r.calls ++ [.stop name]⟩

/-- `_stop_started_services`. -/
def stopStartedServices (failedService : String) :
    List (String × Service ε W) → ServiceRun W → ServiceRun W
  | [], r => r
  | (name, service) :: rest, r =>
      if name = failedService then
        r
      else
        match service.isRunning r.world with
        | .ok true => stopStartedServices failedService rest (callStop name service r)
        | _ => stopStartedServices failedService rest r

/-- The loop of `start_all`, over what is left of the services. -/
def startLoop (services : Dict String (Service ε W)) :
    List (String × Service ε W) → ServiceRun W → Except ε Unit × ServiceRun W
  | [], r => (.ok (), r)
  | (name, service) :: rest, r =>
      match callStart name service r with
      | (none, r') => startLoop services rest r'
      | (some e, r') => (.error e, stopStartedServices name services.entries r')

def startAll (m : ServiceManager ε W) (r : ServiceRun W) :
    Except ε Unit × ServiceManager ε W × ServiceRun W :=
  if m.started then
    (.ok (), m, r)
  else
    match startLoop m.services m.services.entries r with
    | (.ok (), r') => (.ok (), { m with started := true }, r')
    | (.error e, r') => (.error e, m, r')

def stopAll (m : ServiceManager ε W) (r : ServiceRun W) : ServiceManager ε W × ServiceRun W :=
  if m.started then
    ({ m with started := false },
      m.services.entries.reverse.foldl (fun r p => callStop p.1 p.2 r) r)
  else
    (m, r)

/-! ### What is promised -/

/-- The run after all services of a list have been started, if none of them fails. -/
def startEach : List (String × Service ε W) → ServiceRun W → Option (ServiceRun W)
  | [], r => some r
  | (name, service) :: rest, r =>
      match callStart name service r with
      | (none, r') => startEach rest r'
      | (some _, _) => none

/-- The stops of services, in reverse order. -/
def reverseStops (services : List (String × Service ε W)) : List ServiceCall :=
  services.reverse.map fun p => .stop p.1

/-- A start that fails: the services before it, the failing one and those after it, what it raises and
the run when it has. -/
structure Failure (ε W : Type) where
  before : List (String × Service ε W)
  name : String
  service : Service ε W
  after : List (String × Service ε W)
  error : ε
  run : ServiceRun W

/-- The start of the services fails there. -/
structure FailsAt (m : ServiceManager ε W) (r : ServiceRun W) (f : Failure ε W) : Prop where
  idle : m.started = false
  entries : m.services.entries = f.before ++ (f.name, f.service) :: f.after
  fails : ∃ r', startEach f.before r = some r' ∧ callStart f.name f.service r' = (some f.error, f.run)

/-- What is promised: a failed start raises, leaves the manager as it was and stops what was started
before, in reverse order and nothing else; and after a start that does not fail, the end stops all
services in reverse order, whatever happened in between. -/
structure Lawful (m : ServiceManager ε W) (r : ServiceRun W) : Prop where
  raised : ∀ f, FailsAt m r f → (startAll m r).1 = .error f.error
  idle : ∀ f, FailsAt m r f → (startAll m r).2.1.started = false
  rollback : ∀ f, FailsAt m r f →
    (startAll m r).2.2.calls = f.run.calls ++ reverseStops f.before
  shutdown : ∀ m' r', startAll m r = (.ok (), m', r') → ∀ r'' : ServiceRun W,
    (stopAll m' r'').2.calls = r''.calls ++ reverseStops m.services.entries ∧
      (stopAll m' r'').1.started = false

/-! ### The end -/

theorem calls_foldl_callStop (services : List (String × Service ε W)) (r : ServiceRun W) :
    (services.foldl (fun r p => callStop p.1 p.2 r) r).calls =
      r.calls ++ services.map fun p => .stop p.1 := by
  induction services generalizing r with
  | nil => simp
  | cons p services ih =>
      rw [List.foldl_cons, ih, callStop]
      simp

/-- The end stops each service once, in reverse order, whatever the stops raise. -/
theorem calls_stopAll {m : ServiceManager ε W} (h : m.started = true) (r : ServiceRun W) :
    (stopAll m r).2.calls = r.calls ++ reverseStops m.services.entries ∧
      (stopAll m r).1.started = false := by
  rw [stopAll, if_pos h]
  exact ⟨calls_foldl_callStop _ r, rfl⟩

/-- After a start that does not fail the manager has its services, and is started. -/
theorem started_of_startAll {m m' : ServiceManager ε W} {r r' : ServiceRun W}
    (h : startAll m r = (.ok (), m', r')) : m'.services = m.services ∧ m'.started = true := by
  rw [startAll] at h
  split at h
  · rename_i hstarted
    cases h
    exact ⟨rfl, hstarted⟩
  · split at h
    · cases h
      exact ⟨rfl, rfl⟩
    · cases h

/-! ### A failed start -/

variable {m : ServiceManager ε W} {r r' : ServiceRun W} {f : Failure ε W}

/-- The loop goes on after services that start. -/
theorem startLoop_append {services : Dict String (Service ε W)}
    {before rest : List (String × Service ε W)} (h : startEach before r = some r') :
    startLoop services (before ++ rest) r = startLoop services rest r' := by
  induction before generalizing r with
  | nil =>
      obtain rfl := Option.some.inj h
      rfl
  | cons p before ih =>
      rw [startEach] at h
      rw [List.cons_append, startLoop]
      split at h
      · exact ih h
      · cases h

/-- A failed start raises and leaves the manager as it was; what it does is the rollback. -/
theorem startAll_of_failsAt (h : FailsAt m r f) :
    startAll m r =
      (.error f.error, m, stopStartedServices f.name m.services.entries f.run) := by
  obtain ⟨r', hbefore, hfails⟩ := h.fails
  rw [startAll, h.idle, if_neg (by decide)]
  have hloop : startLoop m.services m.services.entries r =
      (.error f.error, stopStartedServices f.name m.services.entries f.run) := by
    conv_lhs => rw [h.entries, startLoop_append hbefore, startLoop, hfails]
  rw [hloop]

theorem failsAt_of_startLoop {services : Dict String (Service ε W)} {l : List (String × Service ε W)}
    {e : ε} (h : startLoop services l r = (.error e, r')) :
    ∃ before name service after run, l = before ++ (name, service) :: after ∧
      ∃ r₁, startEach before r = some r₁ ∧ callStart name service r₁ = (some e, run) := by
  induction l generalizing r with
  | nil => cases h
  | cons p l ih =>
      rw [startLoop] at h
      cases hstart : callStart p.1 p.2 r with
      | mk raised r₁ =>
          rw [hstart] at h
          cases raised with
          | none =>
              obtain ⟨before, name, service, after, run, rfl, r₂, hbefore, hfails⟩ := ih h
              have hstarted : startEach (p :: before) r = some r₂ := by
                rw [startEach, hstart]
                exact hbefore
              exact ⟨p :: before, name, service, after, run, rfl, r₂, hstarted, hfails⟩
          | some e' =>
              cases h
              exact ⟨[], p.1, p.2, l, r₁, rfl, r, rfl, hstart⟩

/-- A start raises only where a service does not start. -/
theorem exists_failsAt {m' : ServiceManager ε W} {e : ε} (h : startAll m r = (.error e, m', r')) :
    ∃ f, FailsAt m r f ∧ f.error = e := by
  rw [startAll] at h
  split at h
  · cases h
  · rename_i hidle
    split at h
    · cases h
    · rename_i e' r₁ hloop
      cases h
      obtain ⟨before, name, service, after, run, hentries, hfails⟩ := failsAt_of_startLoop hloop
      exact ⟨⟨before, name, service, after, e, run⟩, ⟨by simpa using hidle, hentries, hfails⟩, rfl⟩

/-- The names of the services are distinct. -/
theorem FailsAt.nodup (h : FailsAt m r f) : (f.before.map Prod.fst ++ [f.name]).Nodup := by
  have hnodup := m.services.nodup_keys
  rw [Dict.keys, h.entries, List.map_append, List.map_cons, ← List.singleton_append,
    ← List.append_assoc] at hnodup
  exact List.Nodup.of_append_left hnodup

/-- The rollback stops services that come before the failed one, in the order in which they are. -/
theorem calls_stopStartedServices {before : List (String × Service ε W)} {name : String}
    (h : name ∉ before.map Prod.fst) (service : Service ε W) (rest : List (String × Service ε W))
    (r : ServiceRun W) :
    ∃ stopped : List (String × Service ε W), stopped.Sublist before ∧
      (stopStartedServices name (before ++ (name, service) :: rest) r).calls =
        r.calls ++ stopped.map fun p => .stop p.1 := by
  induction before generalizing r with
  | nil => exact ⟨[], List.Sublist.refl _, by simp [stopStartedServices]⟩
  | cons p before ih =>
      obtain ⟨hne, hrest⟩ : name ≠ p.1 ∧ name ∉ before.map Prod.fst := by simpa using h
      rw [List.cons_append, stopStartedServices, if_neg hne.symm]
      split
      · obtain ⟨stopped, hsub, hcalls⟩ := ih hrest (callStop p.1 p.2 r)
        exact ⟨p :: stopped, hsub.cons_cons p, by rw [hcalls, callStop]; simp⟩
      · obtain ⟨stopped, hsub, hcalls⟩ := ih hrest r
        exact ⟨stopped, hsub.cons p, hcalls⟩

/-- A list of distinct elements that is its own reverse has at most one. -/
theorem length_le_one_of_eq_reverse {α : Type} {l : List α} (hnodup : l.Nodup)
    (h : l = l.reverse) : l.length ≤ 1 := by
  by_contra hlong
  have hlast : l.length - 1 < l.length := by omega
  have hsame : l[0] = l[l.length - 1] := by
    rw [List.getElem_of_eq h, List.getElem_reverse]
    simp
  have hindex := (hnodup.getElem_inj_iff).1 hsame
  omega

/-- A rollback of one service stops it if it runs. -/
theorem calls_stopStartedServices_one {p : String × Service ε W}
    {rest : List (String × Service ε W)} {name : String} {service : Service ε W} (h : name ≠ p.1)
    (r : ServiceRun W) :
    (stopStartedServices name ([p] ++ (name, service) :: rest) r).calls =
        r.calls ++ reverseStops [p] ↔ p.2.isRunning r.world = .ok true := by
  rw [List.cons_append, stopStartedServices, if_neg h.symm]
  split
  · rename_i hrunning
    simp [stopStartedServices, callStop, reverseStops, hrunning]
  · rename_i hrunning
    simpa [stopStartedServices, reverseStops] using hrunning

/-- The rollback is in reverse order just if there is at most one service to stop, which runs. -/
theorem stopStartedServices_iff {before rest : List (String × Service ε W)} {name : String}
    {service : Service ε W} (hnodup : (before.map Prod.fst ++ [name]).Nodup) (r : ServiceRun W) :
    (stopStartedServices name (before ++ (name, service) :: rest) r).calls =
        r.calls ++ reverseStops before ↔
      before.length ≤ 1 ∧ ∀ p ∈ before, p.2.isRunning r.world = .ok true := by
  obtain ⟨hbefore, -, hdisj⟩ := List.nodup_append'.1 hnodup
  have hnot : name ∉ before.map Prod.fst := fun hmem => hdisj hmem List.mem_cons_self
  -- what is stopped is a part of the services before, so all of them if it is their reverse
  have hshort : (stopStartedServices name (before ++ (name, service) :: rest) r).calls =
      r.calls ++ reverseStops before → before.length ≤ 1 := by
    intro hcalls
    obtain ⟨stopped, hsub, hstopped⟩ := calls_stopStartedServices hnot service rest r
    rw [hstopped, List.append_cancel_left_eq] at hcalls
    have hlength : stopped.length = before.length := by
      simpa [reverseStops] using congrArg List.length hcalls
    obtain rfl := hsub.eq_of_length hlength
    have hnames : stopped.map Prod.fst = (stopped.map Prod.fst).reverse := by
      have hinj : Function.Injective ServiceCall.stop := fun _ _ h => ServiceCall.stop.inj h
      refine hinj.list_map ?_
      rw [← List.map_reverse, List.map_map, List.map_map]
      exact hcalls
    simpa using length_le_one_of_eq_reverse hbefore hnames
  rcases before with _ | ⟨p, _ | ⟨q, before⟩⟩
  · simp [stopStartedServices, reverseStops]
  · have hne : name ≠ p.1 := fun he => hnot (by simp [he])
    rw [calls_stopStartedServices_one hne]
    simp
  · constructor
    · intro hcalls
      exact absurd (hshort hcalls) (by simp)
    · intro h
      exact absurd h.1 (by simp)

/-- What is promised holds just if, whenever a start fails, at most one service has been started before
it, and says that it is running; and a start raises only where a service does not start. -/
theorem lawful_iff (m : ServiceManager ε W) (r : ServiceRun W) :
    (Lawful m r ↔ ∀ f, FailsAt m r f →
      f.before.length ≤ 1 ∧ ∀ p ∈ f.before, p.2.isRunning f.run.world = .ok true) ∧
      ∀ e m' r', startAll m r = (.error e, m', r') → ∃ f, FailsAt m r f ∧ f.error = e := by
  have hrollback : ∀ f, FailsAt m r f → ((startAll m r).2.2.calls = f.run.calls ++ reverseStops f.before ↔
      f.before.length ≤ 1 ∧ ∀ p ∈ f.before, p.2.isRunning f.run.world = .ok true) := by
    intro f hf
    rw [startAll_of_failsAt hf, hf.entries]
    exact stopStartedServices_iff hf.nodup f.run
  refine ⟨?_, fun _ _ _ h => exists_failsAt h⟩
  constructor
  · intro h f hf
    exact (hrollback f hf).1 (h.rollback f hf)
  · intro h
    refine ⟨?_, ?_, fun f hf => (hrollback f hf).2 (h f hf), ?_⟩
    · intro f hf
      rw [startAll_of_failsAt hf]
    · intro f hf
      rw [startAll_of_failsAt hf]
      exact hf.idle
    · intro m' r' hstart r''
      obtain ⟨hservices, hstarted⟩ := started_of_startAll hstart
      rw [← hservices]
      exact calls_stopAll hstarted r''

/-! ### A rollback that goes forward -/

/-- A service that starts or not, and runs. -/
def serviceThat (starts : Bool) : Service Unit Unit where
  start := fun _ => (if starts then none else some (), ())
  stop := fun _ => (none, ())
  isRunning := fun _ => .ok true

/-- Three services, of which the last does not start. -/
def lastFails : ServiceManager Unit Unit where
  services := ((Dict.empty.set "data" (serviceThat true)).set "ingest" (serviceThat true)).set "api"
    (serviceThat false)

theorem stopped_forward :
    (startAll lastFails ⟨(), []⟩).2.2.calls =
        [.start "data", .start "ingest", .start "api", .stop "data", .stop "ingest"] ∧
      ¬ Lawful lastFails ⟨(), []⟩ := by
  refine ⟨by decide, fun h => ?_⟩
  have hfails : FailsAt lastFails ⟨(), []⟩ ⟨[("data", serviceThat true), ("ingest", serviceThat true)],
      "api", serviceThat false, [], (), ⟨(), [.start "data", .start "ingest", .start "api"]⟩⟩ :=
    ⟨rfl, rfl, _, rfl, rfl⟩
  have hreverse := h.rollback _ hfails
  revert hreverse
  decide

end ServiceManager
