/-
**The months of a sync job are counted once.**

A job counts every month of its range: those that have a file at its start as skipped at once, and
the others when a worker is done with them.  What has been counted, what the workers have taken and
what is left in the queue together are the months of the range, each of them once, whatever the
order of the steps.  So the counts of a job that is over add up to the number of its months, if there
is a worker at all: without workers a job is done before any month was taken.

Main definitions:

* `SyncJob.Accounts` — the counters of a job say what was counted;
* `SyncManager.TaskInv`, `SyncTask.Apart` — the invariants of the requests and jobs;
* `SyncManager.AtMostOneRuns`, `SyncManager.Accounted` — one job runs for a range, and its accounts
  are right.

Main results:

* `SyncManager.resumeWorker_spec` — what a worker does to the accounts of its job;
* `SyncManager.stepKeeps_resumeAt`, `SyncManager.exec_inv` — every step and every run keeps the
  invariants, if jobs with months run with a worker at least;
* `SyncManager.accounts_right` — the accounts of the jobs in such a run;
* `SyncManager.done_without_workers` — a job without workers.
-/

import Brokerage.SyncManager

set_option relaxedAutoImplicit false
set_option autoImplicit false

/-- The month that a worker has taken. -/
def WorkerAt.month? : WorkerAt → Option (ℕ × ℕ)
  | .taking => none
  | .locking ym => some ym
  | .fetching ym _ _ _ => some ym
  | .sleeping ym _ _ => some ym
  | .suspecting ym _ _ => some ym
  | .retrying ym _ _ => some ym
  | .counting ym _ _ => some ym
  | .gone => none

/-- Two records of a job with the same accounts. -/
structure SyncJob.SameAccounts (job job' : SyncJob) : Prop where
  jobKey : job'.jobKey = job.jobKey
  tf : job'.tf = job.tf
  fromDate : job'.fromDate = job.fromDate
  toDate : job'.toDate = job.toDate
  status : job'.status = job.status
  done : job'.done = job.done
  skipped : job'.skipped = job.skipped
  failed : job'.failed = job.failed
  empty : job'.empty = job.empty
  failedMonths : job'.failedMonths = job.failedMonths
  startedAt : job'.startedAt = job.startedAt

namespace SyncManager

variable (env : SyncEnv)

/-! ### What a worker does -/

theorem updateJob_spec (s : SyncShared) (jobId : String) (f : SyncJob → SyncJob) :
    ∃ jobs, updateJob s jobId f = { s with jobs := jobs } ∧ ∀ jobId', jobs.get? jobId' =
      if jobId' = jobId then (s.jobs.get? jobId).map f else s.jobs.get? jobId' := by
  rw [updateJob]
  cases hjob : s.jobs.get? jobId with
  | none =>
      refine ⟨s.jobs, rfl, fun jobId' => ?_⟩
      split
      · next heq => rw [heq, hjob]; rfl
      · rfl
  | some job => exact ⟨_, rfl, fun jobId' => Dict.get?_set _ _ _ _⟩

/-- What a step of a worker does to the accounts: the worker keeps its month, and the accounts stay;
or it takes a month, or leaves, or counts its month. -/
inductive WorkerStep (run run' : SyncRun) (w w' : WorkerAt) (f : SyncJob → SyncJob) : Prop
  | keeps (month : w'.month? = w.month?) (stays : w' ≠ .gone) (queue : run'.queue = run.queue)
      (counted : run'.counted = run.counted) (job : ∀ job : SyncJob, job.SameAccounts (f job))
  | takes (ym : ℕ × ℕ) (from_ : w = .taking) (to_ : w' = .locking ym)
      (queue : run.queue = ym :: run'.queue) (counted : run'.counted = run.counted) (job : f = id)
  | leaves (from_ : w = .taking) (to_ : w' = .gone) (empty : run.queue = [])
      (queue : run'.queue = run.queue) (counted : run'.counted = run.counted) (job : f = id)
  | counts (ym : ℕ × ℕ) (outcome : MonthOutcome) (locked : Bool)
      (from_ : w = .counting ym outcome locked) (to_ : w' = .taking)
      (queue : run'.queue = run.queue) (counted : run'.counted = run.counted ++ [(ym, outcome)])
      (job : f = fun job => job.count ym outcome)

/-- The record of one job changes, and beside it at most the locks of months, the disk and the
notes. -/
structure Updates (s s' : SyncShared) (jobId : String) (f : SyncJob → SyncJob) : Prop where
  jobs : ∀ jobId', s'.jobs.get? jobId' =
    if jobId' = jobId then (s.jobs.get? jobId).map f else s.jobs.get? jobId'
  jobsByKey : s'.jobsByKey = s.jobsByKey
  locked : s'.locked = s.locked

/-- What a step of a worker changes: its place, and the record of its job. -/
structure WorkerFrame (s s' : SyncShared) (run run' : SyncRun) (k : ℕ) (w' : WorkerAt)
    (f : SyncJob → SyncJob) : Prop where
  jobId : run'.jobId = run.jobId
  tf : run'.tf = run.tf
  known : run'.known = run.known
  workers : run'.workers = run.workers.set k w'
  shared : Updates s s' run.jobId f

theorem updates_id {s s' : SyncShared} (jobId : String) (hjobs : s'.jobs = s.jobs)
    (hkeys : s'.jobsByKey = s.jobsByKey) (hlocked : s'.locked = s.locked) :
    Updates s s' jobId id := by
  refine ⟨fun jobId' => ?_, hkeys, hlocked⟩
  rw [hjobs]
  split
  · next heq => rw [heq, Option.map_id, id]
  · rfl

variable {env} {s s' : SyncShared} {run run' : SyncRun} {k : ℕ} {w : WorkerAt} {ym : ℕ × ℕ}

theorem sameAccounts_id : ∀ job : SyncJob, job.SameAccounts (id job) :=
  fun _ => ⟨rfl, rfl, rfl, rfl, rfl, rfl, rfl, rfl, rfl, rfl, rfl⟩

/-- A worker that has taken a month goes on with it; the jobs and the global lock stay. -/
def Moves (s s' : SyncShared) (run run' : SyncRun) (k : ℕ) (ym : ℕ × ℕ) : Prop :=
  ∃ w', run' = run.put k w' ∧ w'.month? = some ym ∧ w' ≠ .gone ∧ s'.jobs = s.jobs ∧
    s'.jobsByKey = s.jobsByKey ∧ s'.locked = s.locked

theorem afterAttempt_month (ym : ℕ × ℕ) (attempt retriesUsed : ℕ) :
    (afterAttempt ym attempt retriesUsed).month? = some ym ∧
      afterAttempt ym attempt retriesUsed ≠ .gone := by
  rw [afterAttempt]
  split
  · exact ⟨rfl, fun h => by cases h⟩
  · exact ⟨rfl, fun h => by cases h⟩

theorem checkMonth_moves (s : SyncShared) (run : SyncRun) (k : ℕ) (ym : ℕ × ℕ) (indexOk : Bool) :
    Moves s (checkMonth s run k ym indexOk).1 run (checkMonth s run k ym indexOk).2 k ym := by
  rw [checkMonth]
  dsimp only
  split
  · exact ⟨_, rfl, rfl, (fun h => by cases h), rfl, rfl, rfl⟩
  · split
    · exact ⟨_, rfl, rfl, (fun h => by cases h), rfl, rfl, rfl⟩
    · split
      · exact ⟨_, rfl, rfl, (fun h => by cases h), rfl, rfl, rfl⟩
      · exact ⟨_, rfl, rfl, (fun h => by cases h), rfl, rfl, rfl⟩

theorem afterWrite_moves (s : SyncShared) (run : SyncRun) (k : ℕ) (ym : ℕ × ℕ)
    (attempt retriesUsed : ℕ) (candles : List OhlcvRow) (gate : GateVerdict) :
    Moves s (afterWrite s run k ym attempt retriesUsed candles gate).1 run
      (afterWrite s run k ym attempt retriesUsed candles gate).2 k ym := by
  obtain ⟨hmonth, hstays⟩ := afterAttempt_month ym attempt retriesUsed
  rw [afterWrite.eq_def]
  split
  · cases gate with
    | raises => exact ⟨_, rfl, rfl, (fun h => by cases h), rfl, rfl, rfl⟩
    | rejects => exact ⟨_, rfl, hmonth, hstays, rfl, rfl, rfl⟩
    | accepts suspect =>
        cases suspect with
        | false => exact ⟨_, rfl, rfl, (fun h => by cases h), rfl, rfl, rfl⟩
        | true => exact ⟨_, rfl, rfl, (fun h => by cases h), rfl, rfl, rfl⟩
  · exact ⟨_, rfl, rfl, (fun h => by cases h), rfl, rfl, rfl⟩

theorem afterFetch_moves (s : SyncShared) (run : SyncRun) (k : ℕ) (ym : ℕ × ℕ)
    (attempt retriesUsed asked : ℕ) (candles : List OhlcvRow) (marked written : Bool)
    (gate : GateVerdict) :
    Moves s (afterFetch s run k ym attempt retriesUsed asked candles marked written gate).1 run
      (afterFetch s run k ym attempt retriesUsed asked candles marked written gate).2 k ym := by
  rw [afterFetch]
  split
  · exact ⟨_, rfl, rfl, (fun h => by cases h), rfl, rfl, rfl⟩
  · split
    · exact ⟨_, rfl, rfl, (fun h => by cases h), rfl, rfl, rfl⟩
    · next disk _ =>
        obtain ⟨w', hput, hmonth, hstays, hjobs, hkeys, hlocked⟩ := afterWrite_moves
          { s with disk := disk, written := s.written.set ym asked } run k ym attempt retriesUsed
          candles gate
        exact ⟨w', hput, hmonth, hstays, hjobs, hkeys, hlocked⟩

theorem Moves.workerStep (h : Moves s s' run run' k ym) (hw : w.month? = some ym) :
    ∃ w' f, WorkerFrame s s' run run' k w' f ∧ WorkerStep run run' w w' f := by
  obtain ⟨w', rfl, hmonth, hstays, hjobs, hkeys, hlocked⟩ := h
  exact ⟨w', id, ⟨rfl, rfl, rfl, rfl, updates_id _ hjobs hkeys hlocked⟩,
    .keeps (hmonth.trans hw.symm) hstays rfl rfl sameAccounts_id⟩

theorem moves_put (s : SyncShared) (run : SyncRun) (k : ℕ) (w' : WorkerAt)
    (hmonth : w'.month? = some ym) (hstays : w' ≠ .gone) : Moves s s run (run.put k w') k ym :=
  ⟨w', rfl, hmonth, hstays, rfl, rfl, rfl⟩

/-- A worker notes something in the record of its job. -/
theorem workerStep_update (w' : WorkerAt) (f : SyncJob → SyncJob)
    (hshared : Updates s s' run.jobId f) (hmonth : w'.month? = w.month?) (hstays : w' ≠ .gone)
    (hf : ∀ job : SyncJob, job.SameAccounts (f job)) :
    ∃ w'' f', WorkerFrame s s' run (run.put k w') k w'' f' ∧
      WorkerStep run (run.put k w') w w'' f' :=
  ⟨w', f, ⟨rfl, rfl, rfl, rfl, hshared⟩, .keeps hmonth hstays rfl rfl hf⟩

/-- Every step of a worker is one of the four. -/
theorem resumeWorker_spec {move : WorkerMove}
    (h : resumeWorker env s run k w move = some (s', run')) :
    ∃ w' f, WorkerFrame s s' run run' k w' f ∧ WorkerStep run run' w w' f := by
  revert h
  cases w with
  | taking =>
      cases move with
      | go marked =>
          rw [resumeWorker]
          split
          · next hqueue =>
              rintro ⟨⟩
              exact ⟨.gone, id, ⟨rfl, rfl, rfl, rfl, updates_id _ rfl rfl rfl⟩,
                .leaves rfl rfl hqueue rfl rfl rfl⟩
          · next ym queue hqueue =>
              rintro ⟨⟩
              exact ⟨.locking ym, id, ⟨rfl, rfl, rfl, rfl, updates_id _ rfl rfl rfl⟩,
                .takes ym rfl rfl hqueue rfl rfl⟩
      | _ => rintro ⟨⟩
  | locking ym =>
      cases move with
      | locked storeOk indexOk =>
          rw [resumeWorker]
          split
          · rintro ⟨⟩
          · split
            · intro h
              have hmoves := checkMonth_moves s run k ym indexOk
              rw [Option.some.inj h] at hmoves
              exact hmoves.workerStep rfl
            · rintro ⟨⟩
              exact (moves_put s run k (.counting ym .failed false) rfl
                (fun h => by cases h)).workerStep rfl
      | _ => rintro ⟨⟩
  | fetching ym attempt retriesUsed asked =>
      cases move with
      | noAnswer =>
          rintro ⟨⟩
          obtain ⟨hmonth, hstays⟩ := afterAttempt_month ym attempt (attempt + 1)
          exact (moves_put s run k _ hmonth hstays).workerStep rfl
      | answer candles marked written gate =>
          rw [resumeWorker]
          split
          · intro h
            have hmoves := afterFetch_moves s run k ym attempt retriesUsed asked candles marked
              written gate
            rw [Option.some.inj h] at hmoves
            exact hmoves.workerStep rfl
          · rintro ⟨⟩
      | _ => rintro ⟨⟩
  | sleeping ym attempt retriesUsed =>
      cases move with
      | go marked =>
          rintro ⟨⟩
          exact (moves_put s run k (.fetching ym attempt retriesUsed s.clock) rfl
            (fun h => by cases h)).workerStep rfl
      | _ => rintro ⟨⟩
  | suspecting ym retriesUsed candles =>
      cases move with
      | go marked =>
          rw [resumeWorker]
          split
          · rintro ⟨⟩
          · obtain ⟨jobs, hs, hget⟩ := updateJob_spec s run.jobId fun job => { job with
              suspect := job.suspect + 1, suspectMonths := job.suspectMonths ++ [monthKey ym] }
            rw [hs]
            rintro ⟨⟩
            exact workerStep_update _ _ ⟨hget, rfl, rfl⟩ rfl (fun h => by cases h)
              (fun _ => ⟨rfl, rfl, rfl, rfl, rfl, rfl, rfl, rfl, rfl, rfl, rfl⟩)
      | _ => rintro ⟨⟩
  | retrying ym retriesUsed candles =>
      cases move with
      | go marked =>
          rw [resumeWorker]
          split
          · rintro ⟨⟩
          · obtain ⟨jobs, hs, hget⟩ := updateJob_spec s run.jobId fun job => { job with
              retries := job.retries + retriesUsed }
            rw [hs]
            cases candles with
            | none =>
                rintro ⟨⟩
                exact workerStep_update _ _ ⟨hget, rfl, rfl⟩ rfl (fun h => by cases h)
                  (fun _ => ⟨rfl, rfl, rfl, rfl, rfl, rfl, rfl, rfl, rfl, rfl, rfl⟩)
            | some candles =>
                rintro ⟨⟩
                exact workerStep_update _ _ ⟨hget, rfl, rfl⟩ rfl (fun h => by cases h)
                  (fun _ => ⟨rfl, rfl, rfl, rfl, rfl, rfl, rfl, rfl, rfl, rfl, rfl⟩)
      | _ => rintro ⟨⟩
  | counting ym outcome locked =>
      cases move with
      | go marked =>
          rw [resumeWorker]
          split
          · rintro ⟨⟩
          · obtain ⟨jobs, hs, hget⟩ := updateJob_spec s run.jobId fun job => job.count ym outcome
            rw [hs]
            rintro ⟨⟩
            refine ⟨.taking, fun job => job.count ym outcome, ⟨rfl, rfl, rfl, rfl, ?_⟩,
              .counts ym outcome locked rfl rfl rfl rfl rfl⟩
            cases locked with
            | true => exact ⟨hget, rfl, rfl⟩
            | false => exact ⟨hget, rfl, rfl⟩
      | _ => rintro ⟨⟩
  | gone => cases move <;> rintro ⟨⟩

end SyncManager

/-! ### The accounts of a job -/

namespace SyncRun

/-- The months that the workers of a job have taken and not counted. -/
def taken (run : SyncRun) : List (ℕ × ℕ) := run.workers.filterMap WorkerAt.month?

/-- How many months were counted in some way. -/
def countOf (run : SyncRun) (outcome : MonthOutcome) : ℕ :=
  run.counted.countP fun p => p.2 = outcome

/-- The months of a job: those that were counted, those that were taken, and those that wait. -/
def months (run : SyncRun) : List (ℕ × ℕ) :=
  run.known ++ run.counted.map Prod.fst ++ (run.taken ++ run.queue)

end SyncRun

/-- The counters of a job say what was counted. -/
structure SyncJob.Accounts (job : SyncJob) (run : SyncRun) : Prop where
  done : job.done = run.countOf .done
  skipped : job.skipped = run.known.length + run.countOf .skipped
  empty : job.empty = run.countOf .empty
  failed : job.failed = run.countOf .failed
  failedMonths : job.failedMonths =
    (run.counted.filter fun p => p.2 = .failed).map fun p => monthKey p.1

namespace SyncManager

variable {env : SyncEnv} {s s' : SyncShared} {run run' : SyncRun} {k : ℕ} {w w' : WorkerAt}
  {f : SyncJob → SyncJob} {job : SyncJob}

theorem taken_set (hw : run.workers[k]? = some w) (hworkers : run'.workers = run.workers.set k w') :
    (w.month?.toList ++ run'.taken).Perm (w'.month?.toList ++ run.taken) := by
  obtain ⟨hk, rfl⟩ := List.getElem?_eq_some_iff.1 hw
  have hnew := (List.set_perm_cons_eraseIdx hk w').filterMap WorkerAt.month?
  have hold := (List.getElem_cons_eraseIdx_perm hk).filterMap WorkerAt.month?
  have hcons : ∀ (v : WorkerAt) (l : List WorkerAt), (v :: l).filterMap WorkerAt.month? =
      v.month?.toList ++ l.filterMap WorkerAt.month? := fun v l => by
    rw [List.filterMap_cons]
    cases v.month? <;> rfl
  rw [hcons] at hnew hold
  rw [SyncRun.taken, SyncRun.taken, hworkers]
  calc (run.workers[k].month?.toList ++ (run.workers.set k w').filterMap WorkerAt.month?).Perm
        (run.workers[k].month?.toList ++
          (w'.month?.toList ++ (run.workers.eraseIdx k).filterMap WorkerAt.month?)) :=
        hnew.append_left _
    List.Perm _ (w'.month?.toList ++
          (run.workers[k].month?.toList ++ (run.workers.eraseIdx k).filterMap WorkerAt.month?)) :=
        List.perm_append_comm_assoc _ _ _
    List.Perm _ (w'.month?.toList ++ run.workers.filterMap WorkerAt.month?) := hold.append_left _

/-- No step of a worker changes the months of its job. -/
theorem WorkerStep.months (h : WorkerStep run run' w w' f) (hknown : run'.known = run.known)
    (hw : run.workers[k]? = some w) (hworkers : run'.workers = run.workers.set k w') :
    run'.months.Perm run.months := by
  have htaken := taken_set hw hworkers
  rw [SyncRun.months, SyncRun.months, hknown]
  cases h with
  | keeps hmonth _ hqueue hcounted _ =>
      rw [hmonth, List.perm_append_left_iff] at htaken
      rw [hqueue, hcounted]
      exact (htaken.append_right _).append_left _
  | takes ym hfrom hto hqueue hcounted _ =>
      rw [hfrom, hto] at htaken
      rw [hqueue, hcounted]
      refine List.Perm.append_left _ ((htaken.append_right run'.queue).trans ?_)
      exact List.perm_middle.symm
  | leaves hfrom hto _ hqueue hcounted _ =>
      rw [hfrom, hto] at htaken
      rw [hqueue, hcounted]
      exact (List.Perm.append_right _ htaken).append_left _
  | counts ym outcome locked hfrom hto hqueue hcounted _ =>
      rw [hfrom, hto] at htaken
      rw [hqueue, hcounted, List.map_append, ← List.append_assoc run.known, List.append_assoc]
      exact (List.Perm.append_right run.queue htaken).append_left _

end SyncManager

/-- Every counted month is counted in one way. -/
theorem SyncRun.countOf_add (run : SyncRun) :
    run.countOf .done + run.countOf .skipped + run.countOf .empty + run.countOf .failed =
      run.counted.length := by
  rw [countOf, countOf, countOf, countOf]
  induction run.counted with
  | nil => rfl
  | cons p counted ih =>
      obtain ⟨ym, outcome⟩ := p
      rw [List.length_cons, ← ih]
      cases outcome <;> simp <;> omega

namespace SyncJob

variable {job job' : SyncJob} {run run' : SyncRun}

theorem Accounts.sameAccounts (h : job.Accounts run) (hsame : job.SameAccounts job')
    (hknown : run'.known = run.known) (hcounted : run'.counted = run.counted) :
    job'.Accounts run' := by
  refine ⟨?_, ?_, ?_, ?_, ?_⟩
  · rw [hsame.done, h.done, SyncRun.countOf, SyncRun.countOf, hcounted]
  · rw [hsame.skipped, h.skipped, SyncRun.countOf, SyncRun.countOf, hcounted, hknown]
  · rw [hsame.empty, h.empty, SyncRun.countOf, SyncRun.countOf, hcounted]
  · rw [hsame.failed, h.failed, SyncRun.countOf, SyncRun.countOf, hcounted]
  · rw [hsame.failedMonths, h.failedMonths, hcounted]

/-- Counting a month counts it. -/
theorem Accounts.count {ym : ℕ × ℕ} {outcome : MonthOutcome} (h : job.Accounts run)
    (hknown : run'.known = run.known) (hcounted : run'.counted = run.counted ++ [(ym, outcome)]) :
    (job.count ym outcome).Accounts run' := by
  have hcount : ∀ o, run'.countOf o = run.countOf o + if outcome = o then 1 else 0 := fun o => by
    simp only [SyncRun.countOf, hcounted, List.countP_append, List.countP_singleton,
      decide_eq_true_eq]
  obtain ⟨hdone, hskipped, hempty, hfailed, hmonths⟩ := h
  refine ⟨?_, ?_, ?_, ?_, ?_⟩
  · rw [hcount]
    cases outcome <;> simp [SyncJob.count, hdone]
  · rw [hcount, hknown, ← Nat.add_assoc]
    cases outcome <;> simp [SyncJob.count, hskipped]
  · rw [hcount]
    cases outcome <;> simp [SyncJob.count, hempty]
  · rw [hcount]
    cases outcome <;> simp [SyncJob.count, hfailed]
  · rw [hcounted, List.filter_append, List.map_append]
    cases outcome <;> simp [SyncJob.count, hmonths]

/-- There is a failed month for every failure. -/
theorem Accounts.failed_eq (h : job.Accounts run) : job.failed = job.failedMonths.length := by
  rw [h.failed, h.failedMonths, List.length_map, SyncRun.countOf, List.countP_eq_length_filter]

/-- No failed month is named twice. -/
theorem Accounts.nodup_failedMonths (h : job.Accounts run) (hnodup : run.months.Nodup) :
    job.failedMonths.Nodup := by
  have hcounted : (run.counted.map Prod.fst).Nodup :=
    (List.nodup_append.1 (List.nodup_append.1 hnodup).1).2.1
  have hfailed := hcounted.sublist (List.filter_sublist (p := fun p => p.2 = .failed)
    (l := run.counted) |>.map Prod.fst)
  have hkeys := hfailed.map monthKey_injective
  rw [List.map_map] at hkeys
  rw [h.failedMonths]
  exact hkeys

/-- When no month is taken and none waits, the counters add up to the number of months. -/
theorem Accounts.add_eq (h : job.Accounts run) (hover : run.taken ++ run.queue = []) :
    job.done + job.skipped + job.empty + job.failed = run.months.length := by
  have hsum := run.countOf_add
  rw [SyncRun.months, hover, List.append_nil, List.length_append, List.length_map, ← hsum, h.done,
    h.skipped, h.empty, h.failed]
  omega

end SyncJob

namespace SyncManager

/-! ### The invariants of the manager -/

/-- The job that runs for a key is the last one of the key. -/
def LastRuns (env : SyncEnv) (s : SyncShared) : Prop :=
  ∀ jobId job, s.jobs.get? jobId = some job → job.status = .running →
    s.jobsByKey.get? (jobKey env job.tf job.fromDate job.toDate) = some jobId

/-- No job runs for a key. -/
def NoneRuns (env : SyncEnv) (s : SyncShared) (key : String) : Prop :=
  ∀ jobId job, s.jobs.get? jobId = some job → job.status = .running →
    jobKey env job.tf job.fromDate job.toDate ≠ key

/-- The months of the range of a job. -/
def rangeOf (env : SyncEnv) (job : SyncJob) : Option (List (ℕ × ℕ)) :=
  match env.fromisoformat job.fromDate, env.fromisoformat job.toDate with
  | some from_, some to_ => some (monthsInRange from_ to_)
  | _, _ => none

/-- A job has a record, which says what the job counted, and every month of its range is counted,
taken or waits. -/
def Booked (env : SyncEnv) (s : SyncShared) (run : SyncRun) (P : SyncJob → Prop) : Prop :=
  ∃ job range, s.jobs.get? run.jobId = some job ∧ rangeOf env job = some range ∧
    job.Accounts run ∧ run.months.Perm range ∧ P job

/-- The invariant of a request or a job. -/
def TaskInv (env : SyncEnv) (s : SyncShared) : SyncTask → Prop
  | .rebuilding tf fromDate toDate =>
      s.locked = true ∧ NoneRuns env s (jobKey env tf fromDate toDate)
  | .scheduled run =>
      Booked env s run (fun job => job.status = .running) ∧ run.workers = [] ∧ run.counted = []
  | .running run =>
      Booked env s run (fun job => job.status = .running) ∧ run.workers ≠ [] ∧
        (.gone ∈ run.workers → run.queue = [])
  | .finishing run =>
      Booked env s run (fun job => job.status = .running) ∧ run.taken ++ run.queue = []
  | .finished run =>
      Booked env s run (fun job => job.status ≠ .running ∧ (job.status = .done ↔ job.failed = 0)) ∧
        run.taken ++ run.queue = []
  | _ => True

end SyncManager

/-- The job of a task. -/
def SyncTask.run? : SyncTask → Option SyncRun
  | .scheduled run => some run
  | .running run => some run
  | .finishing run => some run
  | .finished run => some run
  | _ => none

def SyncTask.isRebuilding : SyncTask → Prop
  | .rebuilding _ _ _ => True
  | _ => False

theorem SyncTask.not_isRebuilding {t : SyncTask} {run : SyncRun} (hrun : t.run? = some run) :
    ¬ t.isRebuilding := by
  cases t with
  | rebuilding _ _ _ => cases hrun
  | _ => exact id

/-- Two tasks have different jobs, and only one has the global lock. -/
structure SyncTask.Apart (t u : SyncTask) : Prop where
  jobs : ∀ run run', t.run? = some run → u.run? = some run' → run.jobId ≠ run'.jobId
  lock : ¬ (t.isRebuilding ∧ u.isRebuilding)

namespace SyncManager

variable {env : SyncEnv} {s s' : SyncShared} {run run' : SyncRun} {k : ℕ} {w w' : WorkerAt}
  {f : SyncJob → SyncJob} {job : SyncJob} {jobId : String} {t t' u : SyncTask}

/-- A change of a job that does not make it run again. -/
structure KeepsRange (f : SyncJob → SyncJob) : Prop where
  tf : ∀ job, (f job).tf = job.tf
  fromDate : ∀ job, (f job).fromDate = job.fromDate
  toDate : ∀ job, (f job).toDate = job.toDate
  startedAt : ∀ job, (f job).startedAt = job.startedAt
  running : ∀ job, (f job).status = .running → job.status = .running

theorem Updates.get?_of_ne (h : Updates s s' jobId f) {jobId' : String} (hne : jobId' ≠ jobId) :
    s'.jobs.get? jobId' = s.jobs.get? jobId' := by
  rw [h.jobs, if_neg hne]

theorem Updates.get?_self (h : Updates s s' jobId f) :
    s'.jobs.get? jobId = (s.jobs.get? jobId).map f := by
  rw [h.jobs, if_pos rfl]

/-- A job that runs after such a change ran before, for the same range. -/
theorem Updates.running_before (env : SyncEnv) (h : Updates s s' jobId f) (hf : KeepsRange f)
    {jobId' : String}
    (hjob : s'.jobs.get? jobId' = some job) (hruns : job.status = .running) :
    ∃ job', s.jobs.get? jobId' = some job' ∧ job'.status = .running ∧
      jobKey env job'.tf job'.fromDate job'.toDate = jobKey env job.tf job.fromDate job.toDate := by
  by_cases heq : jobId' = jobId
  · subst heq
    rw [h.get?_self] at hjob
    obtain ⟨job', hjob', rfl⟩ := Option.map_eq_some_iff.1 hjob
    exact ⟨job', hjob', hf.running job' hruns, by rw [hf.tf, hf.fromDate, hf.toDate]⟩
  · rw [h.get?_of_ne heq] at hjob
    exact ⟨job, hjob, hruns, rfl⟩

theorem LastRuns.update (hlast : LastRuns env s) (h : Updates s s' jobId f) (hf : KeepsRange f) :
    LastRuns env s' := by
  intro jobId' job hjob hruns
  obtain ⟨job', hjob', hruns', hkey⟩ := h.running_before env hf hjob hruns
  rw [h.jobsByKey, ← hkey]
  exact hlast jobId' job' hjob' hruns'

theorem NoneRuns.update {key : String} (hnone : NoneRuns env s key) (h : Updates s s' jobId f)
    (hf : KeepsRange f) : NoneRuns env s' key := by
  intro jobId' job hjob hruns
  obtain ⟨job', hjob', hruns', hkey⟩ := h.running_before env hf hjob hruns
  rw [← hkey]
  exact hnone jobId' job' hjob' hruns'

/-- A job is booked as long as its record stays. -/
theorem Booked.of_get? {P : SyncJob → Prop} (h : Booked env s run P)
    (hjobs : s'.jobs.get? run.jobId = s.jobs.get? run.jobId) : Booked env s' run P := by
  obtain ⟨job, range, hjob, hbooked⟩ := h
  exact ⟨job, range, hjobs.trans hjob, hbooked⟩

/-- What a step does to one job keeps the invariant of the other tasks. -/
theorem TaskInv.update (hu : TaskInv env s u) (h : Updates s s' jobId f) (hf : KeepsRange f)
    (hother : ∀ run, u.run? = some run → run.jobId ≠ jobId) : TaskInv env s' u := by
  cases u with
  | rebuilding tf fromDate toDate => exact ⟨h.locked.trans hu.1, hu.2.update h hf⟩
  | scheduled run => exact ⟨hu.1.of_get? (h.get?_of_ne (hother run rfl)), hu.2⟩
  | running run => exact ⟨hu.1.of_get? (h.get?_of_ne (hother run rfl)), hu.2⟩
  | finishing run => exact ⟨hu.1.of_get? (h.get?_of_ne (hother run rfl)), hu.2⟩
  | finished run => exact ⟨hu.1.of_get? (h.get?_of_ne (hother run rfl)), hu.2⟩
  | _ => trivial

/-- The same when the record of the task's job stays, if the task does not wait for a rebuild. -/
theorem TaskInv.of_get? (hu : TaskInv env s u)
    (hjobs : ∀ run, u.run? = some run → s'.jobs.get? run.jobId = s.jobs.get? run.jobId)
    (hfree : ¬ u.isRebuilding) : TaskInv env s' u := by
  cases u with
  | rebuilding tf fromDate toDate => exact absurd trivial hfree
  | scheduled run => exact ⟨hu.1.of_get? (hjobs run rfl), hu.2⟩
  | running run => exact ⟨hu.1.of_get? (hjobs run rfl), hu.2⟩
  | finishing run => exact ⟨hu.1.of_get? (hjobs run rfl), hu.2⟩
  | finished run => exact ⟨hu.1.of_get? (hjobs run rfl), hu.2⟩
  | _ => trivial

/-- The job of a task has a record. -/
theorem TaskInv.exists_job (hu : TaskInv env s u) (hrun : u.run? = some run) :
    ∃ P, Booked env s run P := by
  cases u with
  | scheduled _ => cases hrun; exact ⟨_, hu.1⟩
  | running _ => cases hrun; exact ⟨_, hu.1⟩
  | finishing _ => cases hrun; exact ⟨_, hu.1⟩
  | finished _ => cases hrun; exact ⟨_, hu.1⟩
  | _ => cases hrun

/-- What a step of a task keeps: the invariants of the manager, of the task and of the others. -/
structure StepKeeps (env : SyncEnv) (s s' : SyncShared) (t t' : SyncTask) : Prop where
  last : LastRuns env s'
  task : TaskInv env s' t'
  others : ∀ u, t.Apart u → TaskInv env s u → TaskInv env s' u ∧ t'.Apart u

/-- A step that changes only the job of the task. -/
theorem stepKeeps_job (hlast : LastRuns env s) (hrun : t.run? = some run)
    (hrun' : t'.run? = some run') (hid : run'.jobId = run.jobId)
    (h : Updates s s' run.jobId f) (hf : KeepsRange f) (htask : TaskInv env s' t') :
    StepKeeps env s s' t t' := by
  refine ⟨hlast.update h hf, htask, fun u hapart hu => ⟨?_, ?_, ?_⟩⟩
  · exact hu.update h hf fun v hv => (hapart.jobs run v hrun hv).symm
  · intro v v' hv hv'
    rw [hrun'] at hv
    rw [← Option.some.inj hv, hid]
    exact hapart.jobs run v' hrun hv'
  · exact fun hlock => SyncTask.not_isRebuilding hrun' hlock.1

/-- A step that changes no job and leads to a task without one. -/
theorem stepKeeps_idle (hlast : LastRuns env s) (hjobs : s'.jobs = s.jobs)
    (hkeys : s'.jobsByKey = s.jobsByKey) (htask : TaskInv env s' t') (hrun : t'.run? = none)
    (hothers : ∀ u, t.Apart u → TaskInv env s u → ¬ u.isRebuilding) :
    StepKeeps env s s' t t' := by
  refine ⟨fun jobId job hjob hruns => ?_, htask, fun u hapart hu => ⟨?_, ?_, ?_⟩⟩
  · rw [hjobs] at hjob
    rw [hkeys]
    exact hlast jobId job hjob hruns
  · exact hu.of_get? (fun v _ => by rw [hjobs]) (hothers u hapart hu)
  · intro v v' hv
    rw [hrun] at hv
    cases hv
  · exact fun hlock => hothers u hapart hu hlock.2

theorem keepsRange_id : KeepsRange id :=
  ⟨fun _ => rfl, fun _ => rfl, fun _ => rfl, fun _ => rfl, fun _ h => h⟩

theorem WorkerStep.keepsRange (h : WorkerStep run run' w w' f) : KeepsRange f := by
  cases h with
  | keeps _ _ _ _ hjob =>
      exact ⟨fun job => (hjob job).tf, fun job => (hjob job).fromDate, fun job => (hjob job).toDate,
        fun job => (hjob job).startedAt, fun job hruns => (hjob job).status ▸ hruns⟩
  | takes _ _ _ _ _ hjob => exact hjob ▸ keepsRange_id
  | leaves _ _ _ _ _ hjob => exact hjob ▸ keepsRange_id
  | counts ym outcome _ _ _ _ _ hjob =>
      subst hjob
      cases outcome <;> exact ⟨fun _ => rfl, fun _ => rfl, fun _ => rfl, fun _ => rfl,
        fun _ hruns => hruns⟩

/-- A step of a worker keeps the accounts of its job, and its status. -/
theorem WorkerStep.accounts (h : WorkerStep run run' w w' f) (hknown : run'.known = run.known)
    (haccounts : job.Accounts run) : (f job).Accounts run' ∧ (f job).status = job.status := by
  cases h with
  | keeps _ _ _ hcounted hjob =>
      exact ⟨haccounts.sameAccounts (hjob job) hknown hcounted, (hjob job).status⟩
  | takes _ _ _ _ hcounted hjob =>
      subst hjob
      exact ⟨haccounts.sameAccounts (sameAccounts_id job) hknown hcounted, rfl⟩
  | leaves _ _ _ _ hcounted hjob =>
      subst hjob
      exact ⟨haccounts.sameAccounts (sameAccounts_id job) hknown hcounted, rfl⟩
  | counts ym outcome _ _ _ _ hcounted hjob =>
      subst hjob
      exact ⟨haccounts.count hknown hcounted, by cases outcome <;> rfl⟩

theorem rangeOf_eq {job' : SyncJob} (hfrom : job'.fromDate = job.fromDate)
    (hto : job'.toDate = job.toDate) : rangeOf env job' = rangeOf env job := by
  rw [rangeOf, rangeOf, hfrom, hto]

/-- What happens to the record of a job that stays booked. -/
theorem Booked.update {P Q : SyncJob → Prop} (h : Booked env s run P)
    (hupdates : Updates s s' run.jobId f) (hf : KeepsRange f) (hid : run'.jobId = run.jobId)
    (hmonths : run'.months.Perm run.months)
    (hjob : ∀ job, job.Accounts run → P job → (f job).Accounts run' ∧ Q (f job)) :
    Booked env s' run' Q := by
  obtain ⟨job, range, hget, hrange, haccounts, hperm, hP⟩ := h
  obtain ⟨haccounts', hQ⟩ := hjob job haccounts hP
  refine ⟨f job, range, ?_, ?_, haccounts', hmonths.trans hperm, hQ⟩
  · rw [hid, hupdates.get?_self, hget]
    rfl
  · rw [rangeOf_eq (hf.fromDate job) (hf.toDate job), hrange]

/-- Once a worker has left, the queue is empty. -/
theorem WorkerStep.gone_queue (h : WorkerStep run run' w w' f)
    (hworkers : run'.workers = run.workers.set k w')
    (hgone : .gone ∈ run.workers → run.queue = []) (hgone' : .gone ∈ run'.workers) :
    run'.queue = [] := by
  rw [hworkers] at hgone'
  have hcases := List.mem_or_eq_of_mem_set hgone'
  cases h with
  | keeps _ hstays hqueue _ _ =>
      rw [hqueue]
      exact hgone (hcases.resolve_right (Ne.symm hstays))
  | takes ym _ hto hqueue _ _ =>
      have hempty := hgone (hcases.resolve_right fun heq => by cases heq.trans hto)
      cases hqueue.symm.trans hempty
  | leaves _ _ hempty hqueue _ _ => exact hqueue.trans hempty
  | counts _ _ _ _ hto hqueue _ _ =>
      rw [hqueue]
      exact hgone (hcases.resolve_right fun heq => by cases heq.trans hto)

theorem stepKeeps_worker {move : WorkerMove} (hlast : LastRuns env s)
    (ht : TaskInv env s (.running run)) (hw : run.workers[k]? = some w)
    (h : resumeWorker env s run k w move = some (s', run')) :
    StepKeeps env s s' (.running run) (.running run') := by
  obtain ⟨w', f, hframe, hstep⟩ := resumeWorker_spec h
  obtain ⟨hbooked, hne, hgone⟩ := ht
  refine stepKeeps_job hlast rfl rfl hframe.jobId hframe.shared hstep.keepsRange ⟨?_, ?_, ?_⟩
  · refine hbooked.update hframe.shared hstep.keepsRange hframe.jobId
      (hstep.months hframe.known hw hframe.workers) fun job haccounts hruns => ?_
    obtain ⟨haccounts', hstatus⟩ := hstep.accounts hframe.known haccounts
    exact ⟨haccounts', hstatus.trans hruns⟩
  · intro hnil
    rw [hframe.workers, List.set_eq_nil_iff] at hnil
    exact hne hnil
  · exact hstep.gone_queue hframe.workers hgone

theorem taken_replicate (n : ℕ) :
    (List.replicate n WorkerAt.taking).filterMap WorkerAt.month? = [] :=
  List.filterMap_replicate_of_none rfl

theorem keepsRange_status (g : SyncJob → JobStatus) (hg : ∀ job, g job ≠ .running) :
    KeepsRange fun job => { job with status := g job } :=
  ⟨fun _ => rfl, fun _ => rfl, fun _ => rfl, fun _ => rfl, fun job hruns => absurd hruns (hg job)⟩

/-- A job runs for the first time, with a worker if it has months. -/
theorem stepKeeps_runJob (hlast : LastRuns env s) (ht : TaskInv env s (.scheduled run))
    (hworkers : run.queue = [] ∨ 1 ≤ env.workers) :
    StepKeeps env s (runJob env s run).1 (.scheduled run) (runJob env s run).2 := by
  obtain ⟨hbooked, hnone, hcounted⟩ := ht
  have htaken : run.taken = [] := by
    rw [SyncRun.taken, hnone]
    rfl
  rw [runJob]
  split
  · next hqueue =>
      have hkeeps := keepsRange_status (fun _ => .done) fun _ h => by cases h
      obtain ⟨jobs, hs, hget⟩ := updateJob_spec s run.jobId fun job => { job with status := .done }
      have hupdates : Updates s { s with jobs := jobs } run.jobId fun job =>
        { job with status := .done } := ⟨hget, rfl, rfl⟩
      rw [hs]
      refine stepKeeps_job hlast rfl rfl rfl hupdates hkeeps ⟨?_, ?_⟩
      · refine hbooked.update hupdates hkeeps rfl (List.Perm.refl _) fun job haccounts hruns => ?_
        have hfailed : job.failed = 0 := by
          rw [haccounts.failed, SyncRun.countOf, hcounted]
          rfl
        exact ⟨⟨haccounts.done, haccounts.skipped, haccounts.empty, haccounts.failed,
          haccounts.failedMonths⟩, (fun h => by cases h), iff_of_true rfl hfailed⟩
      · rw [htaken, hqueue]
        rfl
  · next hqueue =>
      have hpos : 0 < (min env.workers run.queue.length).toNat := by
        have hlength := List.length_pos_iff.2 hqueue
        have hone := hworkers.resolve_left hqueue
        omega
      have hmonths : (SyncRun.months { run with
          workers := List.replicate (min env.workers run.queue.length).toNat .taking }) =
          run.months := by
        rw [SyncRun.months, SyncRun.months, htaken, SyncRun.taken, taken_replicate]
      refine stepKeeps_job hlast rfl rfl rfl (updates_id _ rfl rfl rfl) keepsRange_id ⟨?_, ?_, ?_⟩
      · refine hbooked.update (updates_id _ rfl rfl rfl) keepsRange_id rfl (.of_eq hmonths)
          fun job haccounts hruns => ⟨⟨haccounts.done, haccounts.skipped, haccounts.empty,
            haccounts.failed, haccounts.failedMonths⟩, hruns⟩
      · intro hnil
        rw [List.replicate_eq_nil_iff] at hnil
        omega
      · intro hgone
        cases List.eq_of_mem_replicate hgone

/-- The workers of a job are gone. -/
theorem stepKeeps_gathered (hlast : LastRuns env s) (ht : TaskInv env s (.running run))
    (hgone : ∀ w ∈ run.workers, w = .gone) : StepKeeps env s s (.running run) (.finishing run) := by
  obtain ⟨hbooked, hne, hqueue⟩ := ht
  refine stepKeeps_job hlast rfl rfl rfl (updates_id _ rfl rfl rfl) keepsRange_id ⟨hbooked, ?_⟩
  obtain ⟨w, hw⟩ := List.exists_mem_of_ne_nil _ hne
  have htaken : run.taken = [] := by
    rw [SyncRun.taken, List.filterMap_eq_nil_iff]
    intro v hv
    rw [hgone v hv]
    rfl
  rw [htaken, hqueue (hgone w hw ▸ hw)]
  rfl

theorem finishJob_spec (s : SyncShared) (run : SyncRun) (ok : Bool) :
    ∃ jobs, finishJob s run ok = ({ s with
        jobs := jobs
        disk := if ok = true then (s.disk.rebuild run.tf).store else s.disk }, .finished run) ∧
      ∀ jobId, jobs.get? jobId =
        if jobId = run.jobId then
          (s.jobs.get? run.jobId).map fun job =>
            { job with status := if job.failed = 0 then .done else .failed }
        else s.jobs.get? jobId := by
  obtain ⟨jobs, hs, hget⟩ := updateJob_spec
    { s with disk := if ok = true then (s.disk.rebuild run.tf).store else s.disk } run.jobId
    fun job => { job with status := if job.failed = 0 then .done else .failed }
  exact ⟨jobs, by rw [finishJob, hs], hget⟩

/-- A job is over. -/
theorem stepKeeps_finishJob (hlast : LastRuns env s) (ht : TaskInv env s (.finishing run))
    (ok : Bool) :
    StepKeeps env s (finishJob s run ok).1 (.finishing run) (finishJob s run ok).2 := by
  obtain ⟨hbooked, hover⟩ := ht
  have hkeeps := keepsRange_status (fun job => if job.failed = 0 then .done else .failed)
    fun job => by split <;> rintro ⟨⟩
  obtain ⟨jobs, hfinish, hget⟩ := finishJob_spec s run ok
  rw [hfinish]
  have hupdates : Updates s { s with
      jobs := jobs
      disk := if ok = true then (s.disk.rebuild run.tf).store else s.disk } run.jobId fun job =>
    { job with status := if job.failed = 0 then .done else .failed } := ⟨hget, rfl, rfl⟩
  refine stepKeeps_job hlast rfl rfl rfl hupdates hkeeps ⟨?_, hover⟩
  refine hbooked.update hupdates hkeeps rfl (List.Perm.refl _) fun job haccounts _ => ?_
  refine ⟨⟨haccounts.done, haccounts.skipped, haccounts.empty, haccounts.failed,
    haccounts.failedMonths⟩, ?_, ?_⟩
  · dsimp only
    split <;> rintro ⟨⟩
  · dsimp only
    split
    · next hfailed => exact iff_of_true rfl hfailed
    · next hfailed => exact iff_of_false (fun h => by cases h) hfailed

/-- A request gets the global lock. -/
theorem stepKeeps_acquire (hlast : LastRuns env s) (hlocked : s.locked ≠ true)
    (tf fromDate toDate : String) :
    StepKeeps env s (acquire env s tf fromDate toDate).1 (.starting tf fromDate toDate)
      (acquire env s tf fromDate toDate).2 := by
  have hfree : ∀ u, (SyncTask.starting tf fromDate toDate).Apart u → TaskInv env s u →
      ¬ u.isRebuilding := by
    intro u _ hu hrebuilding
    cases u with
    | rebuilding _ _ _ => exact hlocked hu.1
    | _ => exact hrebuilding
  rw [acquire]
  cases hkey : s.jobsByKey.get? (jobKey env tf fromDate toDate) with
  | none =>
      have hnone : NoneRuns env s (jobKey env tf fromDate toDate) := by
        intro jobId job hjob hruns heq
        have hid := hlast jobId job hjob hruns
        rw [heq, hkey] at hid
        cases hid
      exact stepKeeps_idle hlast rfl rfl ⟨rfl, hnone⟩ rfl hfree
  | some last =>
      dsimp only
      split
      · exact stepKeeps_idle hlast rfl rfl trivial rfl hfree
      · next hstopped =>
          have hnone : NoneRuns env s (jobKey env tf fromDate toDate) := by
            intro jobId job hjob hruns heq
            have hid := hlast jobId job hjob hruns
            rw [heq, hkey] at hid
            obtain rfl := Option.some.inj hid
            refine hstopped ?_
            rw [hjob, ← hruns]
            rfl
          exact stepKeeps_idle hlast rfl rfl ⟨rfl, hnone⟩ rfl hfree

/-- A job is started. -/
theorem stepKeeps_startJob {tf fromDate toDate : String} (hlast : LastRuns env s)
    (ht : TaskInv env s (.rebuilding tf fromDate toDate))
    (h : startJob env s tf fromDate toDate jobId = some (s', t')) :
    StepKeeps env s s' (.rebuilding tf fromDate toDate) t' := by
  obtain ⟨hlocked, hnone⟩ := ht
  have hfree : ∀ u, (SyncTask.rebuilding tf fromDate toDate).Apart u → TaskInv env s u →
      ¬ u.isRebuilding := fun u hapart _ hu => hapart.lock ⟨trivial, hu⟩
  revert h
  rw [startJob]
  dsimp only
  cases hfrom : env.fromisoformat fromDate with
  | none =>
      dsimp only
      rintro ⟨⟩
      exact stepKeeps_idle hlast rfl rfl trivial rfl hfree
  | some from_ =>
      cases hto : env.fromisoformat toDate with
      | none =>
          dsimp only
          rintro ⟨⟩
          exact stepKeeps_idle hlast rfl rfl trivial rfl hfree
      | some to_ =>
          dsimp only
          split
          · rintro ⟨⟩
          · next hnew =>
              intro h
              obtain ⟨rfl, rfl⟩ := Prod.mk.inj (Option.some.inj h)
              have hget : s.jobs.get? jobId = none := by
                rwa [Dict.contains, Option.isSome_iff_ne_none, not_not] at hnew
              have hperm := List.filter_append_perm
                (fun ym => decide (ym ∈ (s.disk.rebuild tf).doneMonths)) (monthsInRange from_ to_)
              have hother : ∀ u v, TaskInv env s u → u.run? = some v → v.jobId ≠ jobId := by
                intro u v hu hv heq
                obtain ⟨_, job, _, hjob, _⟩ := hu.exists_job hv
                rw [heq, hget] at hjob
                cases hjob
              refine ⟨?_, ⟨⟨_, monthsInRange from_ to_, Dict.get?_set_self _ _ _, ?_, ?_, ?_, rfl⟩,
                rfl, rfl⟩, fun u hapart hu => ⟨?_, ?_, fun hlock => hlock.1⟩⟩
              · -- the new job is the last one of its key, and no other job runs for that key
                intro jobId' job hjob hruns
                dsimp only at hjob ⊢
                rw [Dict.get?_set] at hjob
                split at hjob
                · next heq =>
                    obtain rfl := Option.some.inj hjob
                    rw [heq, Dict.get?_set_self]
                · rw [Dict.get?_set_of_ne _ _ (hnone jobId' job hjob hruns)]
                  exact hlast jobId' job hjob hruns
              · rw [rangeOf, hfrom, hto]
              · refine ⟨rfl, ?_, rfl, rfl, rfl⟩
                have hlength := hperm.length_eq
                rw [List.length_append] at hlength
                have hcount : SyncRun.countOf ⟨jobId, tf, (monthsInRange from_ to_).filter
                    (· ∈ (s.disk.rebuild tf).doneMonths), (monthsInRange from_ to_).filter
                    (· ∉ (s.disk.rebuild tf).doneMonths), [], []⟩ .skipped = 0 := rfl
                rw [hcount]
                simp only [decide_not] at hlength ⊢
                omega
              · rw [SyncRun.months, SyncRun.taken]
                simpa using hperm
              · refine hu.of_get? (fun v hv => ?_) (hfree u hapart hu)
                exact Dict.get?_set_of_ne _ _ (hother u v hu hv)
              · intro v v' hv hv'
                rw [← Option.some.inj hv]
                exact (hother u v' hu hv').symm

/-! ### Runs -/

/-- A job that has months to download runs for the first time with a worker at least. -/
def SomeWorker (env : SyncEnv) (p : TaskPool SyncShared SyncTask) :
    TaskLabel SyncRequest SyncAnswer (List (String × SyncJob)) → Prop
  | .resume i _ =>
      match p.tasks[i]? with
      | some (.scheduled run) => run.queue = [] ∨ 1 ≤ env.workers
      | _ => True
  | _ => True

/-- A step of a task keeps the invariants. -/
theorem stepKeeps_resumeAt {move : SyncMove} (hlast : LastRuns env s) (ht : TaskInv env s t)
    (hworkers : ∀ run, t = .scheduled run → run.queue = [] ∨ 1 ≤ env.workers)
    (h : resumeAt env s t move = some (s', t')) : StepKeeps env s s' t t' := by
  revert h
  cases t with
  | starting tf fromDate toDate =>
      cases move with
      | acquire =>
          rw [resumeAt]
          split
          · rintro ⟨⟩
          · next hlocked =>
              intro h
              have hkeeps := stepKeeps_acquire hlast hlocked tf fromDate toDate
              rw [Option.some.inj h] at hkeeps
              exact hkeeps
      | _ => rintro ⟨⟩
  | rebuilding tf fromDate toDate =>
      cases move with
      | rebuilt ok jobId =>
          cases ok with
          | false =>
              rintro ⟨⟩
              exact stepKeeps_idle hlast rfl rfl trivial rfl fun u hapart _ hu =>
                hapart.lock ⟨trivial, hu⟩
          | true => exact stepKeeps_startJob hlast ht
      | _ => rintro ⟨⟩
  | scheduled run =>
      cases move with
      | run =>
          intro h
          have hkeeps := stepKeeps_runJob hlast ht (hworkers run rfl)
          rw [Option.some.inj h] at hkeeps
          exact hkeeps
      | _ => rintro ⟨⟩
  | running run =>
      cases move with
      | worker k move =>
          rw [resumeAt]
          cases hw : run.workers[k]? with
          | none => rintro ⟨⟩
          | some w =>
              dsimp only
              intro h
              obtain ⟨⟨s'', run'⟩, hresume, heq⟩ := Option.map_eq_some_iff.1 h
              obtain ⟨rfl, rfl⟩ := Prod.mk.inj heq
              exact stepKeeps_worker hlast ht hw hresume
      | gathered =>
          rw [resumeAt]
          split
          · next hgone =>
              rintro ⟨⟩
              exact stepKeeps_gathered hlast ht hgone
          · rintro ⟨⟩
      | _ => rintro ⟨⟩
  | finishing run =>
      cases move with
      | rebuilt ok jobId =>
          intro h
          have hkeeps := stepKeeps_finishJob hlast ht ok
          rw [Option.some.inj h] at hkeeps
          exact hkeeps
      | _ => rintro ⟨⟩
  | rebuildCall tf =>
      cases move with
      | rebuilt ok jobId =>
          rintro ⟨⟩
          refine ⟨hlast, trivial, fun u _ hu => ⟨?_, fun _ _ hv => (by cases hv),
            fun hlock => hlock.1⟩⟩
          cases u <;> exact hu
      | _ => rintro ⟨⟩
  | existing _ => cases move <;> rintro ⟨⟩
  | raised => cases move <;> rintro ⟨⟩
  | finished _ => cases move <;> rintro ⟨⟩
  | rebuildDone => cases move <;> rintro ⟨⟩

/-- The invariant of a task does not depend on the time. -/
theorem taskInv_clock {now : ℕ} (hu : TaskInv env s u) : TaskInv env { s with clock := now } u := by
  cases u <;> exact hu

theorem apart_symm (t u : SyncTask) (h : t.Apart u) : u.Apart t :=
  ⟨fun run run' hrun hrun' heq => h.jobs run' run hrun' hrun heq.symm,
    fun hlock => h.lock hlock.symm⟩

theorem status_loadJobs {stored : List (String × SyncJob)}
    (h : (loadJobs stored).get? jobId = some job) : job.status ≠ .running := by
  rw [loadJobs, Dict.get?_setAll, Dict.get?_empty, Option.or_none] at h
  obtain ⟨before, after, hlist, -⟩ := List.lookup_eq_some_iff.1 h
  have hmem : (jobId, job) ∈ before ++ (jobId, job) :: after := List.mem_append_cons_self
  rw [← hlist, List.mem_reverse, List.mem_map] at hmem
  obtain ⟨⟨_, job'⟩, -, heq⟩ := hmem
  rw [← (Prod.mk.inj heq).2]
  split
  · rintro ⟨⟩
  · next hstopped => exact hstopped

/-- A step keeps the invariants, if a job with months runs with a worker at least. -/
theorem step_inv {p q : TaskPool SyncShared SyncTask}
    {l : TaskLabel SyncRequest SyncAnswer (List (String × SyncJob))}
    (hp : p.Inv (LastRuns env) (TaskInv env) SyncTask.Apart) (hl : SomeWorker env p l)
    (h : (system env).step p l = some q) : q.Inv (LastRuns env) (TaskInv env) SyncTask.Apart := by
  refine TaskSystem.step_inv (P := SomeWorker env) ⟨apart_symm, ?_, ?_, ?_⟩ hp hl h
  · intro p r s' t hp _ henter
    cases r with
    | startJob tf fromDate toDate =>
        cases henter
        exact ⟨hp.shared, trivial, fun u hu => ⟨hp.mem hu, fun _ _ hv => (by cases hv),
          fun hlock => hlock.1⟩⟩
    | rebuild tf =>
        cases henter
        exact ⟨hp.shared, trivial, fun u hu => ⟨hp.mem hu, fun _ _ hv => (by cases hv),
          fun hlock => hlock.1⟩⟩
  · intro p i a t s' t' hp hworkers ht hresume
    rw [SomeWorker, ht] at hworkers
    change resume env p.shared t a = some (s', t') at hresume
    rw [resume] at hresume
    split at hresume
    · have hkeeps : StepKeeps env { p.shared with clock := a.now } s' t t' := by
        refine stepKeeps_resumeAt hp.shared ?_ ?_ hresume
        · exact taskInv_clock (hp.task i t ht)
        · rintro run rfl
          exact hworkers
      refine ⟨hkeeps.last, hkeeps.task, fun j u hij hu => ?_⟩
      exact hkeeps.others u (hp.pair i j t u (Ne.symm hij) ht hu) (taskInv_clock (hp.task j u hu))
    · cases hresume
  · intro p stored s' hp _ hrestart jobId job hjob hruns
    cases hrestart
    exact absurd hruns (status_loadJobs hjob)

theorem inv_start (disk : HistoricalParquet) (stored : List (String × SyncJob)) :
    (start disk stored).Inv (LastRuns env) (TaskInv env) SyncTask.Apart :=
  TaskPool.inv_of_nil fun _ _ hjob hruns => absurd hruns (status_loadJobs hjob)

/-- The invariants hold after every run in which the jobs run with workers. -/
theorem exec_inv {disk : HistoricalParquet} {stored : List (String × SyncJob)}
    {ls : List (TaskLabel SyncRequest SyncAnswer (List (String × SyncJob)))}
    {p : TaskPool SyncShared SyncTask}
    (hmeets : Transition.Meets (system env).step (SomeWorker env) (start disk stored) ls)
    (h : Transition.exec (system env).step (start disk stored) ls = some p) :
    p.Inv (LastRuns env) (TaskInv env) SyncTask.Apart :=
  Transition.exec_invariant_of_meets (fun _ _ _ => step_inv) (inv_start disk stored) hmeets h

/-- Two jobs do not run for the same range. -/
def AtMostOneRuns (s : SyncShared) : Prop :=
  ∀ jobId jobId' job job', s.jobs.get? jobId = some job → s.jobs.get? jobId' = some job' →
    job.status = .running → job'.status = .running → job.tf = job'.tf →
    job.fromDate = job'.fromDate → job.toDate = job'.toDate → jobId = jobId'

/-- The accounts of a job are right: every month of its range is counted, taken or waits, once; the
failed months are those that were counted so; and when the job does not run any more, every month
was counted, and the job is done just if none failed. -/
def Accounted (env : SyncEnv) (s : SyncShared) (run : SyncRun) : Prop :=
  ∃ job range, s.jobs.get? run.jobId = some job ∧ rangeOf env job = some range ∧
    job.Accounts run ∧ run.months.Perm range ∧
    job.failed = job.failedMonths.length ∧ job.failedMonths.Nodup ∧
    (job.status ≠ .running →
      (run.known ++ run.counted.map Prod.fst).Perm range ∧
      job.done + job.skipped + job.empty + job.failed = range.length ∧
      (job.status = .done ↔ job.failed = 0))

theorem atMostOneRuns_of_lastRuns (h : LastRuns env s) : AtMostOneRuns s := by
  intro jobId jobId' job job' hjob hjob' hruns hruns' htf hfrom hto
  have hlast := h jobId job hjob hruns
  rw [htf, hfrom, hto, h jobId' job' hjob' hruns'] at hlast
  exact (Option.some.inj hlast).symm

theorem nodup_rangeOf {range : List (ℕ × ℕ)} (h : rangeOf env job = some range) : range.Nodup := by
  rw [rangeOf] at h
  split at h
  · cases h
    exact nodup_monthsInRange _ _
  · cases h

/-- The accounts of a booked job are right, if nothing is left when it does not run any more. -/
theorem Booked.accounted {P : SyncJob → Prop} (h : Booked env s run P)
    (hover : ∀ job, P job → job.status ≠ .running →
      run.taken ++ run.queue = [] ∧ (job.status = .done ↔ job.failed = 0)) :
    Accounted env s run := by
  obtain ⟨job, range, hjob, hrange, haccounts, hperm, hP⟩ := h
  have hnodup := hperm.nodup_iff.2 (nodup_rangeOf hrange)
  refine ⟨job, range, hjob, hrange, haccounts, hperm, haccounts.failed_eq,
    haccounts.nodup_failedMonths hnodup, fun hstopped => ?_⟩
  obtain ⟨hnone, hstatus⟩ := hover job hP hstopped
  have hadd := haccounts.add_eq hnone
  rw [hperm.length_eq] at hadd
  rw [SyncRun.months, hnone, List.append_nil] at hperm
  exact ⟨hperm, hadd, hstatus⟩

theorem TaskInv.accounted (h : TaskInv env s t) (hrun : t.run? = some run) :
    Accounted env s run := by
  cases t with
  | scheduled _ =>
      cases hrun
      exact h.1.accounted fun job hruns hstopped => absurd hruns hstopped
  | running _ =>
      cases hrun
      exact h.1.accounted fun job hruns hstopped => absurd hruns hstopped
  | finishing _ =>
      cases hrun
      exact h.1.accounted fun job hruns hstopped => absurd hruns hstopped
  | finished _ =>
      cases hrun
      exact h.1.accounted fun job hjob _ => ⟨h.2, hjob.2⟩
  | _ => cases hrun

/-- A manager with a worker at least has one for every job. -/
theorem meets_someWorker (hworkers : 1 ≤ env.workers) (p : TaskPool SyncShared SyncTask)
    (ls : List (TaskLabel SyncRequest SyncAnswer (List (String × SyncJob)))) :
    Transition.Meets (system env).step (SomeWorker env) p ls := by
  refine Transition.meets_of_always (fun p l => ?_) p ls
  rw [SomeWorker.eq_def]
  split
  · split
    · exact Or.inr hworkers
    · trivial
  · trivial

/-- In every run in which jobs with months run with a worker at least, one job at most runs for a
range, and the accounts of all jobs are right. -/
theorem accounts_right (env : SyncEnv) (disk : HistoricalParquet) (stored : List (String × SyncJob))
    (ls : List (TaskLabel SyncRequest SyncAnswer (List (String × SyncJob))))
    (p : TaskPool SyncShared SyncTask)
    (hmeets : Transition.Meets (system env).step (SomeWorker env) (start disk stored) ls)
    (h : Transition.exec (system env).step (start disk stored) ls = some p) :
    AtMostOneRuns p.shared ∧
      ∀ t ∈ p.tasks, ∀ run, t.run? = some run → Accounted env p.shared run := by
  have hp := exec_inv hmeets h
  exact ⟨atMostOneRuns_of_lastRuns hp.shared, fun t ht run hrun => (hp.mem ht).accounted hrun⟩

/-- A manager of `EURUSD` with some workers, that knows two dates. -/
def smallEnv (workers : ℤ) : SyncEnv where
  symbol := "EURUSD"
  workers := workers
  digest := id
  fromisoformat date :=
    if date = "2024-01-01" then some (2024, 1)
    else if date = "2024-02-29" then some (2024, 2) else none
  offered _ _ := []

/-- A job for two months: the source raises for the first one, and has nothing for the second. -/
def twoMonths : List (TaskLabel SyncRequest SyncAnswer (List (String × SyncJob))) :=
  let worker (k : ℕ) (move : WorkerMove) : TaskLabel SyncRequest SyncAnswer _ :=
    .resume 0 ⟨0, .worker k move⟩
  [.enter (.startJob "1m" "2024-01-01" "2024-02-29"), .resume 0 ⟨0, .acquire⟩,
    .resume 0 ⟨0, .rebuilt true "a"⟩, .resume 0 ⟨0, .run⟩, worker 0 (.go true),
    worker 1 (.go true), worker 1 (.locked true true), worker 0 (.locked true true),
    worker 0 .noAnswer, worker 0 (.go true), worker 0 .noAnswer,
    worker 1 (.answer [] true true .raises), worker 0 (.go true), worker 0 .noAnswer,
    worker 0 (.go true), worker 0 .noAnswer,
    worker 1 (.go true), worker 0 (.go true), worker 0 (.go true), worker 0 (.go true),
    worker 1 (.go true), .resume 0 ⟨0, .gathered⟩, .resume 0 ⟨0, .rebuilt true ""⟩]

theorem accounts_right_twoMonths : ∃ p,
    Transition.exec (system (smallEnv 2)).step (start ⟨Dict.empty, none⟩ []) twoMonths = some p ∧
      p.shared.jobs.entries.map (fun e => (e.2.status, e.2.empty, e.2.failed, e.2.failedMonths)) =
        [(.failed, 1, 1, ["2024-01"])] ∧
      AtMostOneRuns p.shared ∧
      ∀ t ∈ p.tasks, ∀ run, t.run? = some run → Accounted (smallEnv 2) p.shared run :=
  ⟨_, rfl, by decide, accounts_right (smallEnv 2) ⟨Dict.empty, none⟩ [] twoMonths _
    (meets_someWorker (by decide) _ _) rfl⟩

/-- A job for two months, of a manager without workers. -/
def nobody : List (TaskLabel SyncRequest SyncAnswer (List (String × SyncJob))) :=
  [.enter (.startJob "1m" "2024-01-01" "2024-02-29"), .resume 0 ⟨0, .acquire⟩,
    .resume 0 ⟨0, .rebuilt true "a"⟩, .resume 0 ⟨0, .run⟩, .resume 0 ⟨0, .gathered⟩,
    .resume 0 ⟨0, .rebuilt true ""⟩]

/-- Without workers a job is done, and its two months are not counted. -/
theorem done_without_workers : ∃ p run,
    Transition.exec (system (smallEnv 0)).step (start ⟨Dict.empty, none⟩ []) nobody = some p ∧
      p.tasks = [.finished run] ∧ run.jobId = "a" ∧ run.queue = [(2024, 1), (2024, 2)] ∧
      (p.shared.jobs.get? "a").map (fun job =>
        (job.status, job.done + job.skipped + job.empty + job.failed)) = some (.done, 0) ∧
      ¬ Accounted (smallEnv 0) p.shared run := by
  refine ⟨_, _, rfl, rfl, rfl, by decide, by decide, ?_⟩
  rintro ⟨job, range, hjob, hrange, -, -, -, -, hover⟩
  cases hjob
  cases hrange
  exact absurd (hover (by decide)).2.1 (by decide)

end SyncManager
