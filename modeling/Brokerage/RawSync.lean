/-
**The worker of the raw sync jobs.**

A raw sync job downloads one file for each day of a range and each of its symbols, with retries, and
counts every day as done, skipped or failed.  The job and its counters are on the disk beside the
files of the days, so that a process that crashed can be followed by one that goes on; a lock file
keeps two jobs from running at a time.  Writes to a temporary name, the manifest of a day and the
watermark of a symbol are not read here, and are left out.

Main definitions:

* `RawSync.RawSyncJob`, `RawSync.Disk` — the jobs, and what is on the disk;
* `RawSync.downloadDay` — a download with retries;
* `RawSync.createJob`, `RawSync.runJob` — the operations of the worker.
-/

import Brokerage.Calendar
import Brokerage.Crashes
import Brokerage.Text

set_option relaxedAutoImplicit false
set_option autoImplicit false

namespace RawSync

/-! ### Jobs -/

inductive Status
  | queued
  | running
  | done
  | failed
  deriving DecidableEq

/-- How a day is counted. -/
inductive Mark
  | done
  | skipped
  | failed
  deriving DecidableEq

/-- A job.  Which days were counted as what is in `counted`; the code has the three counters only,
and nothing is decided by this list. -/
structure RawSyncJob where
  jobId : String
  status : Status
  symbols : List String
  fromDate : String
  toDate : String
  force : Bool
  daysTotal : ℕ
  daysDone : ℕ := 0
  daysSkipped : ℕ := 0
  daysFailed : ℕ := 0
  lastError : Option String := none
  failedDayLast : Option String := none
  counted : List (String × ℤ × Mark) := []
  deriving DecidableEq

/-- `round(x, 1)`: the nearest number of tenths, the even one if two are as near. -/
def roundTenths (x : ℚ) : ℚ :=
  let n := ⌊10 * x⌋
  let rest := 10 * x - n
  if rest < 1 / 2 ∨ (rest = 1 / 2 ∧ n % 2 = 0) then n / 10 else (n + 1) / 10

/-- The progress of a job in percent, as its snapshot gives it. -/
def RawSyncJob.progressPct (job : RawSyncJob) : ℚ :=
  let total : ℚ := if job.daysTotal = 0 then 1 else job.daysTotal
  roundTenths (100 * (job.daysDone + job.daysSkipped + job.daysFailed) / total)

/-! ### The days of a job -/

/-- A number of days from a day on, the days being numbered from 1970. -/
def daysFrom (cur : ℤ) : ℕ → List ℤ
  | 0 => []
  | n + 1 => cur :: daysFrom (cur + 1) n

/-- The days of a range without its last day. -/
def daysInRange (from_ to_ : ℤ) : List ℤ := daysFrom from_ (to_ - from_).toNat

/-- `date.isoformat`. -/
def isoformat (day : ℤ) : String :=
  let month := monthOf (dayMicros * day)
  String.ofList (Text.padded 4 (month / 12).toNat ++ '-' :: Text.padded 2 (month % 12 + 1).toNat ++
    '-' :: Text.padded 2 (day - daysBefore month + 1).toNat)

/-! ### The disk -/

abbrev Bytes := List UInt8

/-- Where the file of a day is. -/
def pathForDay (symbol : String) (day : ℤ) : String × ℤ := (Text.upper (Text.strip symbol), day)

/-- The lock file with its text, the files of the jobs and the files of the days. -/
structure Disk where
  lock : Option String := none
  jobs : String → Option RawSyncJob := fun _ => none
  bi5 : String × ℤ → Option Bytes := fun _ => none

namespace Disk

/-- The file of a day is there and is not empty. -/
def existsDay (disk : Disk) (symbol : String) (day : ℤ) : Bool :=
  match disk.bi5 (pathForDay symbol day) with
  | none => false
  | some raw => 0 < raw.length

def setJob (job : RawSyncJob) (disk : Disk) : Disk :=
  { disk with jobs := Function.update disk.jobs job.jobId (some job) }

def setDay (symbol : String) (day : ℤ) (raw : Bytes) (disk : Disk) : Disk :=
  { disk with bi5 := Function.update disk.bi5 (pathForDay symbol day) (some raw) }

def setLock (text : Option String) (disk : Disk) : Disk := { disk with lock := text }

end Disk

/-- The file of a day is written unless there is one that is to be kept, or there is nothing to be
written.  The result tells where it is, if it was written. -/
def writeDayAtomic (symbol : String) (day : ℤ) (raw : Bytes) (force : Bool) :
    Durable Disk (Option (String × ℤ)) := do
  let disk ← Durable.read
  if disk.existsDay symbol day = true ∧ force = false then
    pure none
  else if raw.length = 0 then
    pure none
  else do
    Durable.write (Disk.setDay symbol day raw)
    pure (some (pathForDay symbol day))

/-! ### Downloads -/

/-- What comes of a request. -/
inductive Response
  | answer (status : ℕ) (body : Bytes)
  | httpError (code : ℕ)
  | urlError
  | otherError

/-- The download with some more requests; nothing if it raises.  A day without data is answered with
no bytes. -/
def downloadBytes (requests : ℕ → Response) : ℕ → ℕ → Option (Option Bytes)
  | 0, _ => none
  | retries + 1, attempt =>
      match requests attempt with
      | .answer status body =>
          if status = 200 then
            if body.length = 0 then some none else some (some body)
          else some none
      | .httpError code =>
          if code = 404 then some none else downloadBytes requests retries (attempt + 1)
      | .urlError => downloadBytes requests retries (attempt + 1)
      | .otherError => none

/-- The requests of one download. -/
def RETRY_ATTEMPTS : ℕ := 3

/-- The download of a day, with some more attempts. -/
def downloadDay (requests : ℕ → ℕ → Response) : ℕ → ℕ → Option Bytes
  | 0, _ => none
  | retries + 1, attempt =>
      match downloadBytes (requests attempt) RETRY_ATTEMPTS 0 with
      | some data => data
      | none => downloadDay requests retries (attempt + 1)

/-! ### The worker -/

/-- The worker: how often it tries a day, the text it writes into the lock file, and how the texts
of dates are read. -/
structure RawSyncWorker where
  retries : ℕ
  pid : String
  fromisoformat : String → Except String ℤ

/-- What the network answers during a run: the requests of each attempt at a day, for each symbol in
the order of the job. -/
abbrev Network := ℕ → ℤ → ℕ → ℕ → Response

def getJob (jobId : String) : Durable Disk (Option RawSyncJob) := do
  let disk ← Durable.read
  pure (disk.jobs jobId)

def persistJob (job : RawSyncJob) : Durable Disk Unit := Durable.write (Disk.setJob job)

namespace RawSyncWorker

variable (w : RawSyncWorker)

/-- A lock file that is there is another worker's; else it is created, and then filled. -/
def acquireLock : Durable Disk Bool := do
  let disk ← Durable.read
  match disk.lock with
  | some _ => pure false
  | none => do
      Durable.write (Disk.setLock (some ""))
      Durable.write (Disk.setLock (some w.pid))
      pure true

def releaseLock : Durable Disk Unit := Durable.write (Disk.setLock none)

def createJob (jobId : String) (symbols : List String) (fromDate toDate : String) (force : Bool) :
    Durable Disk (Except String RawSyncJob) :=
  match w.fromisoformat fromDate with
  | .error e => pure (.error e)
  | .ok from_ =>
      match w.fromisoformat toDate with
      | .error e => pure (.error e)
      | .ok to_ => do
          let job : RawSyncJob :=
            { jobId, status := .queued, symbols, fromDate, toDate, force,
              daysTotal := (symbols.map fun _ => (daysInRange from_ to_).length).sum }
          persistJob job
          pure (.ok job)

/-- One day of a job: it is downloaded, counted, and the job is persisted. -/
def syncDay (requests : ℕ → ℕ → Response) (sym : String) (d : ℤ) (job : RawSyncJob) :
    Durable Disk RawSyncJob := do
  let disk ← Durable.read
  if disk.existsDay sym d = false ∨ job.force = true then
    match downloadDay requests w.retries 0 with
    | none => do
        let job :=
          { job with
            lastError := some ("Download failed: " ++ sym ++ " " ++ isoformat d)
            failedDayLast := some (isoformat d)
            daysFailed := job.daysFailed + 1
            counted := job.counted ++ [(sym, d, .failed)] }
        persistJob job
        pure job
    | some raw => do
        let written ← writeDayAtomic sym d raw job.force
        let job :=
          match written with
          | some _ =>
              { job with
                daysDone := job.daysDone + 1
                counted := job.counted ++ [(sym, d, .done)] }
          | none =>
              { job with
                daysSkipped := job.daysSkipped + 1
                counted := job.counted ++ [(sym, d, .skipped)] }
        persistJob job
        pure job
  else do
    let job :=
      { job with
        daysSkipped := job.daysSkipped + 1
        counted := job.counted ++ [(sym, d, .skipped)] }
    persistJob job
    pure job

/-- The days of a symbol. -/
def syncDays (requests : ℤ → ℕ → ℕ → Response) (sym : String) :
    List ℤ → RawSyncJob → Durable Disk RawSyncJob
  | [], job => pure job
  | d :: days, job =>
      if job.status = .failed then pure job
      else do
        let job ← w.syncDay (requests d) sym d job
        syncDays requests sym days job

/-- The symbols of a job. -/
def syncSymbols (net : Network) (days : List ℤ) :
    ℕ → List String → RawSyncJob → Durable Disk RawSyncJob
  | _, [], job => pure job
  | k, symbol :: symbols, job => do
      let job ← w.syncDays (net k) (Text.upper (Text.strip symbol)) days job
      syncSymbols net days (k + 1) symbols job

/-- The body of a run under the lock.  Only the reading of the dates raises. -/
def syncJob (net : Network) (job : RawSyncJob) : Durable Disk RawSyncJob :=
  match w.fromisoformat job.fromDate with
  | .error e => pure { job with status := .failed, lastError := some e }
  | .ok from_ =>
      match w.fromisoformat job.toDate with
      | .error e => pure { job with status := .failed, lastError := some e }
      | .ok to_ => do
          let job ← w.syncSymbols net (daysInRange from_ to_) 0 job.symbols job
          pure { job with status := .done, lastError := none }

/-- A run of a job that is queued, or was running when its process ended. -/
def runJob (net : Network) (jobId : String) : Durable Disk (Except String RawSyncJob) := do
  match ← getJob jobId with
  | none => pure (.error ("Job " ++ jobId ++ " not found"))
  | some job =>
      if job.status ≠ .queued ∧ job.status ≠ .running then
        pure (.ok job)
      else do
        let acquired ← w.acquireLock
        if acquired = false then do
          let job :=
            { job with
              lastError := some "Another raw sync job is running (lock held)"
              status := .failed }
          persistJob job
          pure (.ok job)
        else do
          let job := { job with status := .running }
          persistJob job
          let job ← w.syncJob net job
          persistJob job
          releaseLock
          pure (.ok job)

end RawSyncWorker

end RawSync
