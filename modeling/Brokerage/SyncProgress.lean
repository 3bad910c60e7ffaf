/-
**The progress that a sync job shows.**

A snapshot of a job shows its counters and an estimate of the seconds that are left.  The estimate is
made from the months that are left, for which the snapshot takes the planned months less those that
are done, skipped or failed.  The planned months are those that have no file when the job starts; but
the months that have one are counted as skipped at once, and a month for which the source has no
candle is counted as empty and is not subtracted.  So the months that are left are right just as long
as there are as many of the former as of the latter.

Main definitions:

* `SyncJob.snapshot` — the snapshot of a job;
* `SyncRun.unfinished` — the months of a job that are taken or wait;
* `SyncJob.SaneProgress` — the estimate is made from these months;
* `SyncManager.JobStep` — what a step of a task does to the jobs.

Main results:

* `SyncManager.jobStep_resumeAt` — every step of a task is one of the three;
* `SyncManager.exec_tallied` — every run keeps the counters of the jobs, and the tasks of those that
  run;
* `SyncManager.saneProgress_iff` — in every state of a run, when the progress of a job is right;
* `SyncManager.negative_estimate` — a job whose estimate is negative.
-/

import Brokerage.QualityGate
import Brokerage.SyncAccounting

set_option relaxedAutoImplicit false
set_option autoImplicit false

/-! ### The snapshot of a job -/

/-- What a snapshot of a job shows; `etaS` is the estimate of the seconds that are left. -/
structure SyncSnapshot where
  status : JobStatus
  tf : String
  fromDate : String
  toDate : String
  totalUnits : ℕ
  done : ℕ
  skipped : ℕ
  empty : ℕ
  suspect : ℕ
  failed : ℕ
  retries : ℕ
  etaS : Option ℤ
  startedAt : ℕ
  failedMonths : List String
  suspectMonths : List String

namespace SyncJob

/-- The months that are left, for a snapshot. -/
def remaining (job : SyncJob) : ℤ := job.totalUnits - job.done - job.skipped - job.failed

/-- A snapshot has an estimate. -/
def Estimates (job : SyncJob) : Prop :=
  0 < job.done ∧ 0 < job.totalUnits ∧ job.done + job.failed < job.totalUnits

instance (job : SyncJob) : Decidable job.Estimates := inferInstanceAs (Decidable (_ ∧ _ ∧ _))

/-- The snapshot of a job that was started some seconds ago. -/
def snapshot (job : SyncJob) (elapsed : ℚ) : SyncSnapshot where
  status := job.status
  tf := job.tf
  fromDate := job.fromDate
  toDate := job.toDate
  totalUnits := job.totalUnits
  done := job.done
  skipped := job.skipped
  empty := job.empty
  suspect := job.suspect
  failed := job.failed
  retries := job.retries
  etaS :=
    if job.Estimates then
      let rate : ℚ := job.done / max elapsed 1
      some (QualityGate.roundHalfEven (job.remaining / max rate (1 / 1000)))
    else none
  startedAt := job.startedAt
  failedMonths := job.failedMonths
  suspectMonths := job.suspectMonths

end SyncJob

namespace SyncJob

variable {job : SyncJob} {elapsed : ℚ} {eta : ℤ}

theorem etaS_eq_some (h : (job.snapshot elapsed).etaS = some eta) :
    job.Estimates ∧ ∃ rate : ℚ, 0 < rate ∧
      eta = QualityGate.roundHalfEven (job.remaining / rate) := by
  simp only [snapshot] at h
  split at h
  · next hestimates =>
      refine ⟨hestimates, _, ?_, (Option.some.inj h).symm⟩
      exact lt_max_of_lt_right (by norm_num)
  · cases h

end SyncJob

/-- The planned months of a job that are not finished: those that a worker has taken, and those that
wait. -/
def SyncRun.unfinished (run : SyncRun) : ℕ := run.taken.length + run.queue.length

/-- The progress of a job is right: its snapshots are made from the unfinished months, show no
negative estimate, and none but zero when no month is left. -/
structure SyncJob.SaneProgress (job : SyncJob) (unfinished : ℕ) : Prop where
  remaining : job.Estimates → job.remaining = unfinished
  nonneg : ∀ elapsed eta, (job.snapshot elapsed).etaS = some eta → 0 ≤ eta
  zero : unfinished = 0 → ∀ elapsed eta, (job.snapshot elapsed).etaS = some eta → eta = 0

/-- The counters of a job say what was counted, and its planned months are counted, taken or wait. -/
structure SyncJob.Tallies (job : SyncJob) (run : SyncRun) : Prop extends job.Accounts run where
  total : job.totalUnits = run.counted.length + run.unfinished

namespace SyncJob

variable {job : SyncJob} {run : SyncRun}

/-- It is enough that the months are right. -/
theorem saneProgress_of_remaining {unfinished : ℕ}
    (h : job.Estimates → job.remaining = unfinished) : job.SaneProgress unfinished := by
  refine ⟨h, fun elapsed eta heta => ?_, fun hzero elapsed eta heta => ?_⟩
  · obtain ⟨hestimates, rate, hrate, rfl⟩ := etaS_eq_some heta
    refine QualityGate.roundHalfEven_nonneg (div_nonneg ?_ hrate.le)
    rw [h hestimates]
    positivity
  · obtain ⟨hestimates, rate, hrate, rfl⟩ := etaS_eq_some heta
    rw [h hestimates, hzero]
    simpa using QualityGate.roundHalfEven_intCast 0

/-- What a snapshot takes for left: the empty months are there too, and those that had a file are
not. -/
theorem Tallies.remaining_eq (h : job.Tallies run) :
    job.remaining = run.unfinished + run.countOf .empty - run.known.length := by
  have hsum := run.countOf_add
  have htotal := h.total
  rw [remaining, h.done, h.skipped, h.failed]
  omega

/-- The progress is right just when there is no estimate, or as many empty months as months that had
a file. -/
theorem Tallies.sane_iff (h : job.Tallies run) :
    job.SaneProgress run.unfinished ↔
      ¬ job.Estimates ∨ run.known.length = run.countOf .empty := by
  have hremaining := h.remaining_eq
  constructor
  · intro hsane
    by_cases hestimates : job.Estimates
    · have hleft := hsane.remaining hestimates
      exact Or.inr (by omega)
    · exact Or.inl hestimates
  · intro hcond
    refine saneProgress_of_remaining fun hestimates => ?_
    have heq := hcond.resolve_left (not_not.2 hestimates)
    omega

end SyncJob

/-! ### What a step does to the jobs -/

namespace SyncManager

variable {env : SyncEnv} {s s' : SyncShared} {run run' : SyncRun} {k : ℕ} {w w' : WorkerAt}
  {f : SyncJob → SyncJob} {job : SyncJob} {jobId : String} {t t' u : SyncTask}

/-- No job has another number of planned months. -/
def SameTotals (s s' : SyncShared) : Prop :=
  ∀ jobId, (s'.jobs.get? jobId).map SyncJob.totalUnits = (s.jobs.get? jobId).map SyncJob.totalUnits

theorem sameTotals_of_jobs (h : s'.jobs = s.jobs) : SameTotals s s' := fun _ => by rw [h]

theorem sameTotals_updateJob (s : SyncShared) (jobId : String)
    (hf : ∀ job : SyncJob, (f job).totalUnits = job.totalUnits) :
    SameTotals s (updateJob s jobId f) := by
  obtain ⟨jobs, hs, hget⟩ := updateJob_spec s jobId f
  intro jobId'
  rw [hs, hget]
  split
  · next heq =>
      subst heq
      rw [Option.map_map]
      exact Option.map_congr fun job _ => hf job
  · rfl

theorem Moves.sameTotals {ym : ℕ × ℕ} (h : Moves s s' run run' k ym) : SameTotals s s' := by
  obtain ⟨_, _, _, _, hjobs, _⟩ := h
  exact sameTotals_of_jobs hjobs

/-- No step of a worker changes a number of planned months. -/
theorem sameTotals_resumeWorker {move : WorkerMove}
    (h : resumeWorker env s run k w move = some (s', run')) : SameTotals s s' := by
  revert h
  cases w with
  | taking =>
      cases move with
      | go marked =>
          rw [resumeWorker]
          split <;> rintro ⟨⟩ <;> exact sameTotals_of_jobs rfl
      | _ => rintro ⟨⟩
  | locking ym =>
      cases move with
      | locked storeOk indexOk =>
          rw [resumeWorker]
          split
          · rintro ⟨⟩
          · split
            · intro h
              have hmoves := checkMonth_moves s run k ym indexOk
              rw [Option.some.inj h] at hmoves
              exact hmoves.sameTotals
            · rintro ⟨⟩
              exact sameTotals_of_jobs rfl
      | _ => rintro ⟨⟩
  | fetching ym attempt retriesUsed asked =>
      cases move with
      | noAnswer =>
          rintro ⟨⟩
          exact sameTotals_of_jobs rfl
      | answer candles marked written gate =>
          rw [resumeWorker]
          split
          · intro h
            have hmoves := afterFetch_moves s run k ym attempt retriesUsed asked candles marked
              written gate
            rw [Option.some.inj h] at hmoves
            exact hmoves.sameTotals
          · rintro ⟨⟩
      | _ => rintro ⟨⟩
  | sleeping ym attempt retriesUsed =>
      cases move with
      | go marked =>
          rintro ⟨⟩
          exact sameTotals_of_jobs rfl
      | _ => rintro ⟨⟩
  | suspecting ym retriesUsed candles =>
      cases move with
      | go marked =>
          rw [resumeWorker]
          split
          · rintro ⟨⟩
          · rintro ⟨⟩
            exact sameTotals_updateJob _ _ fun _ => rfl
      | _ => rintro ⟨⟩
  | retrying ym retriesUsed candles =>
      cases move with
      | go marked =>
          rw [resumeWorker]
          split
          · rintro ⟨⟩
          · have htotals := sameTotals_updateJob (f := fun job => { job with
              retries := job.retries + retriesUsed }) s run.jobId fun _ => rfl
            cases candles <;> rintro ⟨⟩ <;> exact htotals
      | _ => rintro ⟨⟩
  | counting ym outcome locked =>
      cases move with
      | go marked =>
          rw [resumeWorker]
          split
          · rintro ⟨⟩
          · have htotals := sameTotals_updateJob (f := fun job => job.count ym outcome) s run.jobId
              fun job => by cases outcome <;> rfl
            cases locked <;> rintro ⟨⟩ <;> exact htotals
      | _ => rintro ⟨⟩
  | gone => cases move <;> rintro ⟨⟩

/-- What a step of a task does to the jobs: nothing, to a task that has no job; it starts a job; or
its job goes on. -/
inductive JobStep (s s' : SyncShared) (t t' : SyncTask) : Prop
  | idle (before : t.run? = none) (after : t'.run? = none) (jobs : s'.jobs = s.jobs)
  | starts (run : SyncRun) (job : SyncJob) (before : t.run? = none) (after : t' = .scheduled run)
      (new : s.jobs.get? run.jobId = none) (booked : s'.jobs.get? run.jobId = some job)
      (tallies : job.Tallies run) (workers : run.workers = [])
      (others : ∀ jobId, jobId ≠ run.jobId → s'.jobs.get? jobId = s.jobs.get? jobId)
  | goes (run run' : SyncRun) (f : SyncJob → SyncJob) (before : t.run? = some run)
      (after : t'.run? = some run') (started : ∀ run, t' ≠ .scheduled run)
      (jobId : run'.jobId = run.jobId) (keeps : KeepsRange f)
      (shared : Updates s s' run.jobId f)
      (tallies : ∀ job, s.jobs.get? run.jobId = some job → job.Tallies run → (f job).Tallies run')

/-- A worker keeps the counters of its job. -/
theorem jobStep_worker {move : WorkerMove} (hw : run.workers[k]? = some w)
    (h : resumeWorker env s run k w move = some (s', run')) :
    JobStep s s' (.running run) (.running run') := by
  have htotals := sameTotals_resumeWorker h run.jobId
  obtain ⟨w', f, hframe, hstep⟩ := resumeWorker_spec h
  refine .goes run run' f rfl rfl (fun _ h => by cases h) hframe.jobId hstep.keepsRange hframe.shared
    fun job hjob htallies => ⟨(hstep.accounts hframe.known htallies.toAccounts).1, ?_⟩
  have hmonths := (hstep.months hframe.known hw hframe.workers).length_eq
  have htotal : (f job).totalUnits = job.totalUnits := by
    rw [hframe.shared.get?_self, hjob] at htotals
    exact Option.some.inj htotals
  have hold := htallies.total
  simp only [SyncRun.months, hframe.known, List.length_append, List.length_map] at hmonths
  simp only [SyncRun.unfinished] at hold ⊢
  omega

/-- A job that runs for the first time. -/
theorem jobStep_runJob (env : SyncEnv) (s : SyncShared) (hworkers : run.workers = []) :
    JobStep s (runJob env s run).1 (.scheduled run) (runJob env s run).2 := by
  rw [runJob]
  split
  · obtain ⟨jobs, hs, hget⟩ := updateJob_spec s run.jobId fun job => { job with status := .done }
    rw [hs]
    refine .goes run run _ rfl rfl (fun _ h => by cases h) rfl
      (keepsRange_status (fun _ => .done) fun _ h => by cases h) ⟨hget, rfl, rfl⟩
      fun job _ htallies => ?_
    exact ⟨⟨htallies.done, htallies.skipped, htallies.empty, htallies.failed,
      htallies.failedMonths⟩, htallies.total⟩
  · refine .goes run _ id rfl rfl (fun _ h => by cases h) rfl keepsRange_id
      (updates_id _ rfl rfl rfl) fun job _ htallies => ?_
    refine ⟨⟨htallies.done, htallies.skipped, htallies.empty, htallies.failed,
      htallies.failedMonths⟩, htallies.total.trans ?_⟩
    rw [SyncRun.unfinished, SyncRun.unfinished, SyncRun.taken, SyncRun.taken, hworkers,
      taken_replicate]
    rfl

/-- A job that is over. -/
theorem jobStep_finishJob (s : SyncShared) (run : SyncRun) (ok : Bool) :
    JobStep s (finishJob s run ok).1 (.finishing run) (finishJob s run ok).2 := by
  obtain ⟨jobs, hfinish, hget⟩ := finishJob_spec s run ok
  have hkeeps := keepsRange_status (fun job => if job.failed = 0 then .done else .failed)
    fun job => by split <;> rintro ⟨⟩
  rw [hfinish]
  refine .goes run run _ rfl rfl (fun _ h => by cases h) rfl hkeeps ⟨hget, rfl, rfl⟩
    fun job _ htallies => ?_
  exact ⟨⟨htallies.done, htallies.skipped, htallies.empty, htallies.failed,
    htallies.failedMonths⟩, htallies.total⟩

/-- A job that is started has planned the months of its queue, and counted the others as skipped. -/
theorem jobStep_startJob {tf fromDate toDate : String}
    (h : startJob env s tf fromDate toDate jobId = some (s', t')) :
    JobStep s s' (.rebuilding tf fromDate toDate) t' := by
  revert h
  rw [startJob]
  dsimp only
  split
  · next from_ to_ _ _ =>
      split
      · rintro ⟨⟩
      · next hnew =>
          intro h
          obtain ⟨rfl, rfl⟩ := Prod.mk.inj (Option.some.inj h)
          refine .starts _ _ rfl rfl ?_ (Dict.get?_set_self _ _ _) ⟨⟨rfl, ?_, rfl, rfl, rfl⟩, ?_⟩ rfl
            fun jobId' hne => Dict.get?_set_of_ne _ _ hne
          · rwa [Dict.contains, Option.isSome_iff_ne_none, not_not] at hnew
          · have hlength := (List.filter_append_perm
              (fun ym => decide (ym ∈ (s.disk.rebuild tf).doneMonths))
              (monthsInRange from_ to_)).length_eq
            simp only [List.length_append, decide_not, SyncRun.countOf, List.countP_nil] at hlength ⊢
            omega
          · simp [SyncRun.unfinished, SyncRun.taken]
  · rintro ⟨⟩
    exact .idle rfl rfl rfl

/-- Every step of a task is one of the three. -/
theorem jobStep_resumeAt {move : SyncMove} (hworkers : ∀ run, t = .scheduled run → run.workers = [])
    (h : resumeAt env s t move = some (s', t')) : JobStep s s' t t' := by
  revert h
  cases t with
  | starting tf fromDate toDate =>
      cases move with
      | acquire =>
          rw [resumeAt]
          split
          · rintro ⟨⟩
          · rw [acquire]
            split
            · rintro ⟨⟩
              exact .idle rfl rfl rfl
            · split <;> rintro ⟨⟩ <;> exact .idle rfl rfl rfl
      | _ => rintro ⟨⟩
  | rebuilding tf fromDate toDate =>
      cases move with
      | rebuilt ok jobId =>
          cases ok with
          | false =>
              rintro ⟨⟩
              exact .idle rfl rfl rfl
          | true => exact jobStep_startJob
      | _ => rintro ⟨⟩
  | scheduled run =>
      cases move with
      | run =>
          intro h
          have hstep := jobStep_runJob env s (hworkers run rfl)
          rw [Option.some.inj h] at hstep
          exact hstep
      | _ => rintro ⟨⟩
  | running run =>
      cases move with
      | worker k move =>
          rw [resumeAt]
          cases hw : run.workers[k]? with
          | none => rintro ⟨⟩
          | some w =>
              dsimp only
              intro h
              obtain ⟨⟨s'', run'⟩, hresume, heq⟩ := Option.map_eq_some_iff.1 h
              obtain ⟨rfl, rfl⟩ := Prod.mk.inj heq
              exact jobStep_worker hw hresume
      | gathered =>
          rw [resumeAt]
          split
          · rintro ⟨⟩
            exact .goes run run id rfl rfl (fun _ h => by cases h) rfl keepsRange_id
              (updates_id _ rfl rfl rfl) fun _ _ htallies => htallies
          · rintro ⟨⟩
      | _ => rintro ⟨⟩
  | finishing run =>
      cases move with
      | rebuilt ok jobId =>
          intro h
          have hstep := jobStep_finishJob s run ok
          rw [Option.some.inj h] at hstep
          exact hstep
      | _ => rintro ⟨⟩
  | rebuildCall tf =>
      cases move with
      | rebuilt ok jobId =>
          rintro ⟨⟩
          exact .idle rfl rfl rfl
      | _ => rintro ⟨⟩
  | existing _ => cases move <;> rintro ⟨⟩
  | raised => cases move <;> rintro ⟨⟩
  | finished _ => cases move <;> rintro ⟨⟩
  | rebuildDone => cases move <;> rintro ⟨⟩

/-! ### Runs -/

/-- The invariant of a task: the counters of its job are right, and before the job runs it has no
workers. -/
structure TaskTallied (s : SyncShared) (t : SyncTask) : Prop where
  workers : ∀ run, t = .scheduled run → run.workers = []
  job : ∀ run, t.run? = some run → ∃ job, s.jobs.get? run.jobId = some job ∧ job.Tallies run

/-- Two tasks have different jobs. -/
def OtherJobs (t u : SyncTask) : Prop :=
  ∀ run run', t.run? = some run → u.run? = some run' → run.jobId ≠ run'.jobId

theorem otherJobs_symm (t u : SyncTask) (h : OtherJobs t u) : OtherJobs u t :=
  fun run run' hrun hrun' heq => h run' run hrun' hrun heq.symm

theorem otherJobs_of_none (ht : t.run? = none) (u : SyncTask) : OtherJobs t u := by
  intro run run' hrun
  rw [ht] at hrun
  cases hrun

theorem taskTallied_of_none (s : SyncShared) (ht : t.run? = none) : TaskTallied s t := by
  constructor
  · rintro run rfl
    cases ht
  · intro run hrun
    rw [ht] at hrun
    cases hrun

/-- The invariant of a task depends only on the record of its job. -/
theorem TaskTallied.of_get? (hu : TaskTallied s u)
    (hjobs : ∀ run, u.run? = some run → s'.jobs.get? run.jobId = s.jobs.get? run.jobId) :
    TaskTallied s' u := by
  refine ⟨hu.workers, fun run hrun => ?_⟩
  rw [hjobs run hrun]
  exact hu.job run hrun

/-- A step of a task keeps its invariant. -/
theorem JobStep.tallied (h : JobStep s s' t t') (ht : TaskTallied s t) : TaskTallied s' t' := by
  cases h with
  | idle _ hafter _ => exact taskTallied_of_none s' hafter
  | starts run job _ hafter _ hbooked htallies hworkers _ =>
      subst hafter
      refine ⟨?_, ?_⟩
      · rintro _ ⟨⟩
        exact hworkers
      · rintro _ ⟨⟩
        exact ⟨job, hbooked, htallies⟩
  | goes run run' f hbefore hafter hstarted hid _ hshared htallies =>
      refine ⟨fun run hrun => absurd hrun (hstarted run), fun v hv => ?_⟩
      obtain rfl := Option.some.inj (hafter.symm.trans hv)
      obtain ⟨job, hjob, hold⟩ := ht.job run hbefore
      refine ⟨f job, ?_, htallies job hjob hold⟩
      rw [hid, hshared.get?_self, hjob]
      rfl

/-- It keeps the invariants of the tasks of other jobs, and leaves them other jobs. -/
theorem JobStep.others (h : JobStep s s' t t') (hother : OtherJobs t u) (hu : TaskTallied s u) :
    TaskTallied s' u ∧ OtherJobs t' u := by
  cases h with
  | idle _ hafter hjobs =>
      exact ⟨hu.of_get? fun _ _ => by rw [hjobs], otherJobs_of_none hafter u⟩
  | starts run job _ hafter hnew _ _ _ hothers =>
      have hne : ∀ v, u.run? = some v → v.jobId ≠ run.jobId := by
        intro v hv heq
        obtain ⟨job', hjob', _⟩ := hu.job v hv
        rw [heq, hnew] at hjob'
        cases hjob'
      refine ⟨hu.of_get? fun v hv => hothers _ (hne v hv), ?_⟩
      rintro v v' hv hv'
      rw [hafter] at hv
      obtain rfl := Option.some.inj hv
      exact (hne v' hv').symm
  | goes run run' f hbefore hafter _ hid _ hshared _ =>
      refine ⟨hu.of_get? fun v hv => hshared.get?_of_ne (hother run v hbefore hv).symm, ?_⟩
      intro v v' hv hv'
      obtain rfl := Option.some.inj (hafter.symm.trans hv)
      rw [hid]
      exact hother run v' hbefore hv'

/-- A job that runs after a step is the job of the task, or it ran before and is another one. -/
theorem JobStep.running (h : JobStep s s' t t') (hjob : s'.jobs.get? jobId = some job)
    (hruns : job.status = .running) :
    (∃ run, t'.run? = some run ∧ run.jobId = jobId) ∨
      (∃ job', s.jobs.get? jobId = some job' ∧ job'.status = .running) ∧
        ∀ run, t.run? = some run → run.jobId ≠ jobId := by
  cases h with
  | idle hbefore _ hjobs =>
      refine Or.inr ⟨⟨job, hjobs ▸ hjob, hruns⟩, fun run hrun => ?_⟩
      rw [hbefore] at hrun
      cases hrun
  | starts run _ hbefore hafter _ _ _ _ hothers =>
      by_cases heq : jobId = run.jobId
      · exact Or.inl ⟨run, hafter ▸ rfl, heq.symm⟩
      · refine Or.inr ⟨⟨job, hothers jobId heq ▸ hjob, hruns⟩, fun run hrun => ?_⟩
        rw [hbefore] at hrun
        cases hrun
  | goes run run' f hbefore hafter _ hid _ hshared _ =>
      by_cases heq : jobId = run.jobId
      · exact Or.inl ⟨run', hafter, hid.trans heq.symm⟩
      · rw [hshared.get?_of_ne heq] at hjob
        refine Or.inr ⟨⟨job, hjob, hruns⟩, fun v hv => ?_⟩
        obtain rfl := Option.some.inj (hbefore.symm.trans hv)
        exact Ne.symm heq

/-- The counters of the jobs are right. -/
def Tallied (p : TaskPool SyncShared SyncTask) : Prop :=
  p.Inv (fun _ => True) TaskTallied OtherJobs

/-- Every job that runs has a task. -/
def EveryJobHasTask (p : TaskPool SyncShared SyncTask) : Prop :=
  ∀ jobId job, p.shared.jobs.get? jobId = some job → job.status = .running →
    ∃ t ∈ p.tasks, ∃ run, t.run? = some run ∧ run.jobId = jobId

/-- What a step of a task does at a time. -/
theorem jobStep_resume {a : SyncAnswer} (ht : TaskTallied s t)
    (h : resume env s t a = some (s', t')) : JobStep { s with clock := a.now } s' t t' := by
  rw [resume] at h
  split at h
  · exact jobStep_resumeAt ht.workers h
  · cases h

theorem step_tallied {p q : TaskPool SyncShared SyncTask}
    {l : TaskLabel SyncRequest SyncAnswer (List (String × SyncJob))} (hp : Tallied p)
    (h : (system env).step p l = some q) : Tallied q := by
  refine TaskSystem.step_inv (P := fun _ _ => True) ⟨otherJobs_symm, ?_, ?_, ?_⟩ hp trivial h
  · intro p r s' t hp _ henter
    cases r with
    | startJob tf fromDate toDate =>
        cases henter
        exact ⟨trivial, taskTallied_of_none _ rfl, fun u hu =>
          ⟨hp.mem hu, otherJobs_of_none rfl u⟩⟩
    | rebuild tf =>
        cases henter
        exact ⟨trivial, taskTallied_of_none _ rfl, fun u hu =>
          ⟨hp.mem hu, otherJobs_of_none rfl u⟩⟩
  · intro p i a t s' t' hp _ ht hresume
    have htask := hp.task i t ht
    have hstep := jobStep_resume htask hresume
    refine ⟨trivial, hstep.tallied ⟨htask.workers, htask.job⟩, fun j u hij hu => ?_⟩
    have hother := hp.task j u hu
    exact hstep.others (hp.pair i j t u (Ne.symm hij) ht hu) ⟨hother.workers, hother.job⟩
  · exact fun _ _ _ _ _ _ => trivial

theorem step_everyJobHasTask {p q : TaskPool SyncShared SyncTask}
    {l : TaskLabel SyncRequest SyncAnswer (List (String × SyncJob))} (htallied : Tallied p)
    (hp : EveryJobHasTask p) (h : (system env).step p l = some q) : EveryJobHasTask q := by
  intro jobId job hjob hruns
  cases l with
  | enter r =>
      obtain ⟨s', t, henter, rfl⟩ := TaskSystem.step_enter.1 h
      have hjobs : s' = p.shared := by cases r <;> cases henter <;> rfl
      subst hjobs
      obtain ⟨u, hu, hrun⟩ := hp jobId job hjob hruns
      exact ⟨u, List.mem_append_left _ hu, hrun⟩
  | resume i a =>
      obtain ⟨t, s', t', ht, hresume, rfl⟩ := TaskSystem.step_resume.1 h
      have hstep := jobStep_resume (htallied.task i t ht) hresume
      rcases hstep.running hjob hruns with hself | ⟨⟨job', hjob', hruns'⟩, hne⟩
      · have hi : i < p.tasks.length := (List.getElem?_eq_some_iff.1 ht).1
        exact ⟨t', List.mem_set hi t', hself⟩
      · obtain ⟨u, hu, run, hrun, hid⟩ := hp jobId job' hjob' hruns'
        obtain ⟨j, hj⟩ := List.mem_iff_getElem?.1 hu
        have hij : i ≠ j := by
          rintro rfl
          obtain rfl := Option.some.inj (ht.symm.trans hj)
          exact hne run hrun hid
        refine ⟨u, List.mem_iff_getElem?.2 ⟨j, ?_⟩, run, hrun, hid⟩
        rwa [List.getElem?_set_ne hij]
  | restart stored =>
      obtain ⟨s', hrestart, rfl⟩ := TaskSystem.step_restart.1 h
      cases hrestart
      exact absurd hruns (status_loadJobs hjob)

/-- Every run keeps the counters of the jobs, and the tasks of those that run. -/
theorem exec_tallied {disk : HistoricalParquet} {stored : List (String × SyncJob)}
    {ls : List (TaskLabel SyncRequest SyncAnswer (List (String × SyncJob)))}
    {p : TaskPool SyncShared SyncTask}
    (h : Transition.exec (system env).step (start disk stored) ls = some p) :
    Tallied p ∧ EveryJobHasTask p := by
  refine Transition.exec_invariant (I := fun p => Tallied p ∧ EveryJobHasTask p) ?_ ?_ h
  · exact fun _ _ _ hp hstep => ⟨step_tallied hp.1 hstep, step_everyJobHasTask hp.1 hp.2 hstep⟩
  · exact ⟨TaskPool.inv_of_nil trivial, fun _ _ hjob hruns => absurd hruns (status_loadJobs hjob)⟩

/-- In every state of every run each job that runs has a task, and the progress of the jobs of the
tasks is right just when their snapshots have no estimate, or as many months were counted as empty as
had a file at the start. -/
theorem saneProgress_iff (env : SyncEnv) (disk : HistoricalParquet)
    (stored : List (String × SyncJob))
    (ls : List (TaskLabel SyncRequest SyncAnswer (List (String × SyncJob))))
    (p : TaskPool SyncShared SyncTask)
    (h : Transition.exec (system env).step (start disk stored) ls = some p) :
    EveryJobHasTask p ∧ ∀ t ∈ p.tasks, ∀ run, t.run? = some run → ∃ job,
      p.shared.jobs.get? run.jobId = some job ∧
      job.totalUnits = run.counted.length + run.unfinished ∧
      (job.SaneProgress run.unfinished ↔
        ¬ job.Estimates ∨ run.known.length = run.countOf .empty) := by
  obtain ⟨htallied, htasks⟩ := exec_tallied h
  refine ⟨htasks, fun t ht run hrun => ?_⟩
  obtain ⟨job, hjob, htallies⟩ := (htallied.mem ht).job run hrun
  exact ⟨job, hjob, htallies.total, htallies.sane_iff⟩

theorem saneProgress_iff_twoMonths : ∃ p,
    Transition.exec (system (smallEnv 2)).step (start ⟨Dict.empty, none⟩ []) twoMonths = some p ∧
      EveryJobHasTask p ∧ ∀ t ∈ p.tasks, ∀ run, t.run? = some run → ∃ job,
        p.shared.jobs.get? run.jobId = some job ∧
        job.totalUnits = run.counted.length + run.unfinished ∧
        (job.SaneProgress run.unfinished ↔
          ¬ job.Estimates ∨ run.known.length = run.countOf .empty) :=
  ⟨_, rfl, saneProgress_iff (smallEnv 2) ⟨Dict.empty, none⟩ [] twoMonths _ rfl⟩

/-- A manager of `EURUSD` with one worker, that knows the dates of four months. -/
def fourMonthsEnv : SyncEnv where
  symbol := "EURUSD"
  workers := 1
  digest := id
  fromisoformat date :=
    if date = "2024-01-01" then some (2024, 1)
    else if date = "2024-04-30" then some (2024, 4) else none
  offered _ _ := []

/-- There are files for January and February. -/
def winterDisk : HistoricalParquet :=
  ⟨Dict.empty.setAll [((2024, 1), some [⟨1704067200, 1, 1, 1, 1, 0⟩]),
    ((2024, 2), some [⟨1706745600, 1, 1, 1, 1, 0⟩])], none⟩

/-- A job for the four months, of which March is downloaded. -/
def march : List (TaskLabel SyncRequest SyncAnswer (List (String × SyncJob))) :=
  let worker (move : WorkerMove) : TaskLabel SyncRequest SyncAnswer _ :=
    .resume 0 ⟨0, .worker 0 move⟩
  [.enter (.startJob "1m" "2024-01-01" "2024-04-30"), .resume 0 ⟨0, .acquire⟩,
    .resume 0 ⟨0, .rebuilt true "a"⟩, .resume 0 ⟨0, .run⟩, worker (.go true),
    worker (.locked true true),
    worker (.answer [⟨1709251200, 1, 1, 1, 1, 0⟩] true true (.accepts false)), worker (.go true),
    worker (.go true)]

/-- After a minute, with March done and April to come, the job is estimated to have been over for a
minute. -/
theorem negative_estimate : ∃ p run job,
    Transition.exec (system fourMonthsEnv).step (start winterDisk []) march = some p ∧
      p.tasks = [.running run] ∧ run.queue = [(2024, 4)] ∧ run.unfinished = 1 ∧
      p.shared.jobs.get? run.jobId = some job ∧ job.status = .running ∧
      (job.snapshot 60).etaS = some (-60) ∧ ¬ job.SaneProgress run.unfinished := by
  refine ⟨_, _, _, rfl, rfl, rfl, rfl, rfl, rfl, by decide +kernel, ?_⟩
  intro hsane
  exact absurd (hsane.remaining (by decide)) (by decide)

end SyncManager
