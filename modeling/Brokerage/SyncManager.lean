/-
**The manager of the sync jobs of a symbol.**

A sync job downloads the months of a range that have no Parquet file yet.  Only one job runs for a
timeframe and a range: a second request gets the first one's job.  The months of a job wait in a
queue, from which its workers take them; a month is processed under a lock of its own, with some
attempts at the source, and is counted for the job when it is over.

The jobs, their workers and the requests are one system of tasks here, a job with its workers being
one task of it.  The labels say which of them goes on, when, and what the world does: what the
source answers, whether the disk can be read and written, what the quality gate says of a file.  The
rebuild of the index, which runs in a thread, is one step.

Main definitions:

* `SyncJob`, `WorkerAt`, `SyncTask` — the jobs, their workers, the tasks;
* `SyncEnv` — what the manager is set up with, and what the source offers;
* `SyncManager.resumeWorker` — the steps of a worker;
* `SyncManager.resume`, `SyncManager.system` — the steps of the requests and jobs.
-/

import Brokerage.CoverageIndex
import Brokerage.TaskPool

set_option relaxedAutoImplicit false
set_option autoImplicit false

/-! ### Jobs -/

inductive JobStatus
  | running
  | done
  | failed
  | interrupted
  deriving DecidableEq

/-- A job.  The number of its months that were to be downloaded is `totalUnits`, and `startedAt` the
time at which it was started. -/
structure SyncJob where
  jobKey : String
  tf : String
  fromDate : String
  toDate : String
  status : JobStatus
  totalUnits : ℕ
  done : ℕ := 0
  skipped : ℕ := 0
  failed : ℕ := 0
  retries : ℕ := 0
  empty : ℕ := 0
  suspect : ℕ := 0
  startedAt : ℕ
  failedMonths : List String := []
  suspectMonths : List String := []
  deriving DecidableEq

/-- How a month is counted. -/
inductive MonthOutcome
  | done
  | skipped
  | failed
  | empty
  deriving DecidableEq

/-- A month is counted. -/
def SyncJob.count (job : SyncJob) (ym : ℕ × ℕ) : MonthOutcome → SyncJob
  | .done => { job with done := job.done + 1 }
  | .skipped => { job with skipped := job.skipped + 1 }
  | .failed =>
      { job with failed := job.failed + 1, failedMonths := job.failedMonths ++ [monthKey ym] }
  | .empty => { job with empty := job.empty + 1 }

/-- The attempts after the first one. -/
def defaultRetries : ℕ := 3

/-- Where a worker is; the month that it has taken is `ym`. -/
inductive WorkerAt
  /-- It takes the next month of the queue. -/
  | taking
  /-- It waits for the lock of the month. -/
  | locking (ym : ℕ × ℕ)
  /-- It waits for the source, which it has asked at a time. -/
  | fetching (ym : ℕ × ℕ) (attempt retriesUsed asked : ℕ)
  /-- It waits before the next attempt. -/
  | sleeping (ym : ℕ × ℕ) (attempt retriesUsed : ℕ)
  /-- It waits for the global lock, to note that what was written is suspect. -/
  | suspecting (ym : ℕ × ℕ) (retriesUsed : ℕ) (candles : List OhlcvRow)
  /-- The attempts are over, with what was written by the last one; it waits for the global lock, to
  add up the retries. -/
  | retrying (ym : ℕ × ℕ) (retriesUsed : ℕ) (candles : Option (List OhlcvRow))
  /-- It waits for the global lock, to count the month; it may still have the lock of the month. -/
  | counting (ym : ℕ × ℕ) (outcome : MonthOutcome) (locked : Bool)
  /-- It found the queue empty. -/
  | gone
  deriving DecidableEq

/-- What the quality gate does with a file. -/
inductive GateVerdict
  | raises
  | rejects
  | accepts (suspect : Bool)
  deriving DecidableEq

/-- What a worker is resumed with. -/
inductive WorkerMove
  /-- It goes on, having got the global lock if it needs it; a mark is written, if one is due, or
  that fails. -/
  | go (marked : Bool)
  /-- It gets the lock of the month; the store and the index can be read, or not. -/
  | locked (storeOk indexOk : Bool)
  /-- The source raises. -/
  | noAnswer
  /-- The source answers; a mark and a file are written, or not. -/
  | answer (candles : List OhlcvRow) (marked written : Bool) (gate : GateVerdict)
  deriving DecidableEq

/-- A job with its workers: the months that it found done at its start, those that no worker has
taken yet, and those that were counted, with how they were. -/
structure SyncRun where
  jobId : String
  tf : String
  known : List (ℕ × ℕ)
  queue : List (ℕ × ℕ)
  workers : List WorkerAt
  counted : List ((ℕ × ℕ) × MonthOutcome)
  deriving DecidableEq

/-- Requests and jobs. -/
inductive SyncTask
  /-- A request waits for the global lock. -/
  | starting (tf fromDate toDate : String)
  /-- It has the lock, and waits for the rebuild of the index. -/
  | rebuilding (tf fromDate toDate : String)
  /-- It returned a job that was running. -/
  | existing (jobId : String)
  /-- It raised. -/
  | raised
  /-- A job was started and has not run yet. -/
  | scheduled (run : SyncRun)
  /-- Its workers run. -/
  | running (run : SyncRun)
  /-- They are gone, and it waits for the rebuild of the index. -/
  | finishing (run : SyncRun)
  | finished (run : SyncRun)
  /-- The index is to be rebuilt on its own. -/
  | rebuildCall (tf : String)
  | rebuildDone
  deriving DecidableEq

/-- What comes in. -/
inductive SyncRequest
  | startJob (tf fromDate toDate : String)
  | rebuild (tf : String)
  deriving DecidableEq

/-- How a request or a job goes on. -/
inductive SyncMove
  /-- A request gets the global lock. -/
  | acquire
  /-- The rebuild returns or raises; a new job gets an identifier. -/
  | rebuilt (ok : Bool) (jobId : String)
  /-- A job runs for the first time. -/
  | run
  /-- A worker of the job goes on. -/
  | worker (k : ℕ) (move : WorkerMove)
  /-- All of its workers are gone. -/
  | gathered
  deriving DecidableEq

/-- A move, and the time at which it is made. -/
structure SyncAnswer where
  now : ℕ
  move : SyncMove
  deriving DecidableEq

/-- What the requests and jobs share: the jobs, the last one for each key, whether the global lock
is held, the locks of months that are, and what is on the disk.  At which time the answers were
asked for that were last written for a month, and that were last empty for it, is only noted. -/
structure SyncShared where
  jobs : Dict String SyncJob
  jobsByKey : Dict String String
  locked : Bool
  monthLocks : List (String × ℕ × ℕ)
  disk : HistoricalParquet
  clock : ℕ
  written : Dict (ℕ × ℕ) ℕ
  emptied : Dict (ℕ × ℕ) ℕ

/-- The symbol of the jobs, the number of workers, the digest of the keys, the year and month of a
date's text, and the candles that the source offers for a month at a time. -/
structure SyncEnv where
  symbol : String
  workers : ℤ
  digest : String → String
  fromisoformat : String → Option (ℕ × ℕ)
  offered : ℕ → ℕ × ℕ → List OhlcvRow

namespace SyncManager

variable (env : SyncEnv)

def jobKey (tf fromDate toDate : String) : String :=
  env.digest (Text.upper env.symbol ++ ":" ++ tf ++ ":" ++ fromDate ++ ":" ++ toDate)

end SyncManager

/-- A worker goes somewhere. -/
def SyncRun.put (run : SyncRun) (k : ℕ) (w : WorkerAt) : SyncRun :=
  { run with workers := run.workers.set k w }

namespace SyncManager

variable (env : SyncEnv)

/-! ### Workers -/

/-- A job is changed. -/
def updateJob (s : SyncShared) (jobId : String) (f : SyncJob → SyncJob) : SyncShared :=
  match s.jobs.get? jobId with
  | none => s
  | some job => { s with jobs := s.jobs.set jobId (f job) }

/-- The lock of a month is given back. -/
def release (s : SyncShared) (run : SyncRun) (ym : ℕ × ℕ) : SyncShared :=
  { s with monthLocks := s.monthLocks.erase (run.tf, ym) }

/-- A worker that has the lock of a month skips it, or asks the source. -/
def checkMonth (s : SyncShared) (run : SyncRun) (k : ℕ) (ym : ℕ × ℕ) (indexOk : Bool) :
    SyncShared × SyncRun :=
  let s := { s with monthLocks := (run.tf, ym) :: s.monthLocks }
  if s.disk.hasMonth ym then (s, run.put k (.counting ym .skipped true))
  else if indexOk = true ∧ s.disk.status ym = some .empty then
    (s, run.put k (.counting ym .skipped true))
  else if ym.1 = 9999 ∧ ym.2 = 12 then
    -- no datetime is the end of the month
    (release s run ym, run.put k (.counting ym .failed false))
  else (s, run.put k (.fetching ym 0 0 s.clock))

/-- After an attempt that failed there is another one, or the attempts are over. -/
def afterAttempt (ym : ℕ × ℕ) (attempt retriesUsed : ℕ) : WorkerAt :=
  if attempt < defaultRetries then .sleeping ym (attempt + 1) retriesUsed
  else .retrying ym retriesUsed none

/-- What a worker does with candles that it has written. -/
def afterWrite (s : SyncShared) (run : SyncRun) (k : ℕ) (ym : ℕ × ℕ) (attempt retriesUsed : ℕ)
    (candles : List OhlcvRow) (gate : GateVerdict) : SyncShared × SyncRun :=
  if run.tf = "1m" then
    match gate with
    | .raises => (release s run ym, run.put k (.counting ym .failed false))
    | .rejects => (s, run.put k (afterAttempt ym attempt retriesUsed))
    | .accepts true => (s, run.put k (.suspecting ym retriesUsed candles))
    | .accepts false => (s, run.put k (.retrying ym retriesUsed (some candles)))
  else (s, run.put k (.retrying ym retriesUsed (some candles)))

/-- What a worker does with the candles of the source. -/
def afterFetch (s : SyncShared) (run : SyncRun) (k : ℕ) (ym : ℕ × ℕ)
    (attempt retriesUsed asked : ℕ) (candles : List OhlcvRow) (marked written : Bool)
    (gate : GateVerdict) : SyncShared × SyncRun :=
  if candles = [] then
    ({ s with
        disk := if marked = true then s.disk.markEmpty ym else s.disk
        emptied := s.emptied.set ym asked },
      run.put k (.counting ym .empty true))
  else
    match if written = true then s.disk.writeMonth ym candles else none with
    | none => (s, run.put k (.counting ym .failed true))
    | some disk =>
        afterWrite { s with disk := disk, written := s.written.set ym asked } run k ym attempt
          retriesUsed candles gate

/-- What was written is marked as done. -/
def markWritten (disk : HistoricalParquet) (ym : ℕ × ℕ) (candles : List OhlcvRow) :
    HistoricalParquet :=
  match candles with
  | [] => disk
  | row :: rows => disk.markDone ym (rows.length + 1) row.ts (rows.getLastD row).ts

/-- The steps of the `k`-th worker of a job. -/
def resumeWorker (s : SyncShared) (run : SyncRun) (k : ℕ) :
    WorkerAt → WorkerMove → Option (SyncShared × SyncRun)
  | .taking, .go _ =>
      match run.queue with
      | [] => some (s, run.put k .gone)
      | ym :: queue => some (s, { run.put k (.locking ym) with queue := queue })
  | .locking ym, .locked storeOk indexOk =>
      if (run.tf, ym) ∈ s.monthLocks then none
      else if storeOk = true then some (checkMonth s run k ym indexOk)
      else some (s, run.put k (.counting ym .failed false))
  | .fetching ym attempt _ _, .noAnswer =>
      some (s, run.put k (afterAttempt ym attempt (attempt + 1)))
  | .fetching ym attempt retriesUsed asked, .answer candles marked written gate =>
      if ∀ c ∈ env.offered asked ym, c ∈ candles then
        some (afterFetch s run k ym attempt retriesUsed asked candles marked written gate)
      else none
  | .sleeping ym attempt retriesUsed, .go _ =>
      some (s, run.put k (.fetching ym attempt retriesUsed s.clock))
  | .suspecting ym retriesUsed candles, .go _ =>
      if s.locked then none
      else
        some (updateJob s run.jobId fun job => { job with
            suspect := job.suspect + 1, suspectMonths := job.suspectMonths ++ [monthKey ym] },
          run.put k (.retrying ym retriesUsed (some candles)))
  | .retrying ym retriesUsed candles, .go marked =>
      if s.locked then none
      else
        let s := updateJob s run.jobId fun job => { job with retries := job.retries + retriesUsed }
        match candles with
        | none => some (s, run.put k (.counting ym .failed true))
        | some candles =>
            some ({ s with
                disk := if marked = true then markWritten s.disk ym candles else s.disk },
              run.put k (.counting ym .done true))
  | .counting ym outcome locked, .go _ =>
      if s.locked then none
      else
        let s := updateJob s run.jobId fun job => job.count ym outcome
        some (if locked = true then release s run ym else s,
          { run.put k .taking with counted := run.counted ++ [(ym, outcome)] })
  | _, _ => none

/-! ### Requests and jobs -/

/-- A request that has the global lock returns the job that runs for its key, or has the index
rebuilt. -/
def acquire (s : SyncShared) (tf fromDate toDate : String) : SyncShared × SyncTask :=
  match s.jobsByKey.get? (jobKey env tf fromDate toDate) with
  | none => ({ s with locked := true }, .rebuilding tf fromDate toDate)
  | some jobId =>
      if (s.jobs.get? jobId).map SyncJob.status = some .running then (s, .existing jobId)
      else ({ s with locked := true }, .rebuilding tf fromDate toDate)

/-- After the rebuild a job is made, and the global lock given back. -/
def startJob (s : SyncShared) (tf fromDate toDate jobId : String) :
    Option (SyncShared × SyncTask) :=
  let rebuild := s.disk.rebuild tf
  let s := { s with disk := rebuild.store, locked := false }
  match env.fromisoformat fromDate, env.fromisoformat toDate with
  | some from_, some to_ =>
      if s.jobs.contains jobId then none
      else
        let months := monthsInRange from_ to_
        let known := months.filter (· ∈ rebuild.doneMonths)
        let queue := months.filter (· ∉ rebuild.doneMonths)
        let key := jobKey env tf fromDate toDate
        some ({ s with
            jobs := s.jobs.set jobId {
              jobKey := key
              tf := tf
              fromDate := fromDate
              toDate := toDate
              status := .running
              totalUnits := queue.length
              skipped := months.length - queue.length
              startedAt := s.clock }
            jobsByKey := s.jobsByKey.set key jobId },
          .scheduled ⟨jobId, tf, known, queue, [], []⟩)
  | _, _ => some (s, .raised)

/-- A job without months is done; otherwise its workers start. -/
def runJob (s : SyncShared) (run : SyncRun) : SyncShared × SyncTask :=
  if run.queue = [] then
    (updateJob s run.jobId fun job => { job with status := .done }, .finished run)
  else
    (s, .running { run with
      workers := List.replicate (min env.workers run.queue.length).toNat .taking })

/-- After the last rebuild a job is done, or failed. -/
def finishJob (s : SyncShared) (run : SyncRun) (ok : Bool) : SyncShared × SyncTask :=
  let s := { s with disk := if ok = true then (s.disk.rebuild run.tf).store else s.disk }
  (updateJob s run.jobId fun job => { job with
      status := if job.failed = 0 then .done else .failed },
    .finished run)

/-- The steps of a task. -/
def resumeAt (s : SyncShared) : SyncTask → SyncMove → Option (SyncShared × SyncTask)
  | .starting tf fromDate toDate, .acquire =>
      if s.locked then none else some (acquire env s tf fromDate toDate)
  | .rebuilding _ _ _, .rebuilt false _ => some ({ s with locked := false }, .raised)
  | .rebuilding tf fromDate toDate, .rebuilt true jobId => startJob env s tf fromDate toDate jobId
  | .scheduled run, .run => some (runJob env s run)
  | .running run, .worker k move =>
      match run.workers[k]? with
      | none => none
      | some w => (resumeWorker env s run k w move).map fun r => (r.1, .running r.2)
  | .running run, .gathered =>
      if ∀ w ∈ run.workers, w = .gone then some (s, .finishing run) else none
  | .finishing run, .rebuilt ok _ => some (finishJob s run ok)
  | .rebuildCall tf, .rebuilt ok _ =>
      some ({ s with disk := if ok = true then (s.disk.rebuild tf).store else s.disk },
        .rebuildDone)
  | _, _ => none

/-- A task goes on at a time that is not before the last one. -/
def resume (s : SyncShared) (t : SyncTask) (a : SyncAnswer) : Option (SyncShared × SyncTask) :=
  if s.clock ≤ a.now then resumeAt env { s with clock := a.now } t a.move else none

def enter (s : SyncShared) : SyncRequest → Option (SyncShared × SyncTask)
  | .startJob tf fromDate toDate => some (s, .starting tf fromDate toDate)
  | .rebuild tf => some (s, .rebuildCall tf)

/-- The jobs that were stored: those that ran are interrupted. -/
def loadJobs (stored : List (String × SyncJob)) : Dict String SyncJob :=
  Dict.empty.setAll (stored.map fun p =>
    (p.1, if p.2.status = .running then { p.2 with status := .interrupted } else p.2))

/-- The process restarts with the jobs that were stored, and with what is on the disk. -/
def restart (s : SyncShared) (stored : List (String × SyncJob)) : SyncShared :=
  { s with
    jobs := loadJobs stored
    jobsByKey := Dict.empty
    locked := false
    monthLocks := [] }

/-- The manager with its requests and jobs. -/
def system : TaskSystem SyncShared SyncTask SyncRequest SyncAnswer (List (String × SyncJob)) where
  enter := enter
  resume := resume env
  restart s stored := some (restart s stored)

/-- A manager that starts with a disk, and with jobs that were stored. -/
def start (disk : HistoricalParquet) (stored : List (String × SyncJob)) :
    TaskPool SyncShared SyncTask where
  shared := {
    jobs := loadJobs stored
    jobsByKey := Dict.empty
    locked := false
    monthLocks := []
    disk := disk
    clock := 0
    written := Dict.empty
    emptied := Dict.empty }
  tasks := []

end SyncManager
