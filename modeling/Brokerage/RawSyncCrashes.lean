/-
**Raw sync jobs and crashes.**

Jobs are created and run one after the other, and any of these processes can crash between two
writes.  Whatever crashes there were, every job on the disk has its days counted right: each day that
was counted as done or skipped has its file, and a job that is done has counted each of its days
once.  A job that is run when no lock file is there is executed to its end.  A crash under the lock,
however, leaves the lock file behind, whose process is never looked for: from then on every run is
refused, and fails its job.

Main definitions:

* `RawSync.Accounted`, `RawSync.Kept` — what holds of a job, and of the disk;
* `RawSync.Event`, `RawSync.step` — what happens to the disk;
* `RawSync.Served` — what a run is to do for its job.

Main results:

* `RawSync.syncJob_survives`, `RawSync.runJob_survives` — the disk at each crash;
* `RawSync.kept_of_exec` — the disk after any events;
* `RawSync.served_iff` — which runs do what they are to do.
-/

import Brokerage.RawSync

set_option relaxedAutoImplicit false
set_option autoImplicit false

namespace RawSync

/-! ### What is on the disk -/

namespace RawSyncJob

/-- The job is to be executed when it is run. -/
def IsPending (job : RawSyncJob) : Prop := job.status = .queued ∨ job.status = .running

/-- The days that were counted, in the order in which they were. -/
def countedDays (job : RawSyncJob) : List (String × ℤ) := job.counted.map fun c => (c.1, c.2.1)

/-- How many days were counted as something. -/
def countedAs (job : RawSyncJob) (mark : Mark) : ℕ := job.counted.countP (·.2.2 = mark)

/-- The three counters cover the days that were counted. -/
theorem sum_countedAs (job : RawSyncJob) :
    job.countedAs .done + job.countedAs .skipped + job.countedAs .failed = job.counted.length := by
  rw [countedAs, countedAs, countedAs]
  induction job.counted with
  | nil => rfl
  | cons c l ih =>
      obtain ⟨sym, d, mark⟩ := c
      simp only [List.countP_cons, List.length_cons]
      cases mark <;> simp <;> omega

/-- A day was counted, and the job is otherwise the same. -/
structure CountedOne (sym : String) (d : ℤ) (mark : Mark) (job job' : RawSyncJob) : Prop where
  jobId : job'.jobId = job.jobId
  status : job'.status = job.status
  symbols : job'.symbols = job.symbols
  fromDate : job'.fromDate = job.fromDate
  toDate : job'.toDate = job.toDate
  daysTotal : job'.daysTotal = job.daysTotal
  daysDone : job'.daysDone = job.daysDone + if mark = .done then 1 else 0
  daysSkipped : job'.daysSkipped = job.daysSkipped + if mark = .skipped then 1 else 0
  daysFailed : job'.daysFailed = job.daysFailed + if mark = .failed then 1 else 0
  counted : job'.counted = job.counted ++ [(sym, d, mark)]

theorem CountedOne.countedAs {sym : String} {d : ℤ} {mark : Mark} {job job' : RawSyncJob}
    (h : CountedOne sym d mark job job') (m : Mark) :
    job'.countedAs m = job.countedAs m + if mark = m then 1 else 0 := by
  rw [RawSyncJob.countedAs, h.counted, List.countP_append, List.countP_singleton]
  simp only [decide_eq_true_eq, RawSyncJob.countedAs]

theorem CountedOne.countedDays {sym : String} {d : ℤ} {mark : Mark} {job job' : RawSyncJob}
    (h : CountedOne sym d mark job job') : job'.countedDays = job.countedDays ++ [(sym, d)] := by
  rw [RawSyncJob.countedDays, h.counted, List.map_append]
  rfl

end RawSyncJob

namespace Disk

@[simp] theorem lock_setJob (job : RawSyncJob) (disk : Disk) :
    (disk.setJob job).lock = disk.lock := rfl

@[simp] theorem existsDay_setJob (job : RawSyncJob) (disk : Disk) (sym : String) (d : ℤ) :
    (disk.setJob job).existsDay sym d = disk.existsDay sym d := rfl

@[simp] theorem jobs_setJob_self (job : RawSyncJob) (disk : Disk) :
    (disk.setJob job).jobs job.jobId = some job := by
  simp only [setJob, Function.update_self]

theorem jobs_setJob_of_ne {job : RawSyncJob} {id : String} (h : id ≠ job.jobId) (disk : Disk) :
    (disk.setJob job).jobs id = disk.jobs id := by
  simp only [setJob, Function.update_of_ne h]

@[simp] theorem lock_setDay (sym : String) (d : ℤ) (raw : Bytes) (disk : Disk) :
    (disk.setDay sym d raw).lock = disk.lock := by
  simp only [setDay]

@[simp] theorem jobs_setDay (sym : String) (d : ℤ) (raw : Bytes) (disk : Disk) :
    (disk.setDay sym d raw).jobs = disk.jobs := by
  simp only [setDay]

@[simp] theorem lock_setLock (text : Option String) (disk : Disk) :
    (disk.setLock text).lock = text := rfl

@[simp] theorem jobs_setLock (text : Option String) (disk : Disk) :
    (disk.setLock text).jobs = disk.jobs := rfl

@[simp] theorem existsDay_setLock (text : Option String) (disk : Disk) (sym : String) (d : ℤ) :
    (disk.setLock text).existsDay sym d = disk.existsDay sym d := rfl

theorem existsDay_setDay_self {raw : Bytes} (h : raw.length ≠ 0) (sym : String) (d : ℤ)
    (disk : Disk) : (disk.setDay sym d raw).existsDay sym d = true := by
  simp only [existsDay, setDay, Function.update_self]
  exact decide_eq_true (Nat.pos_of_ne_zero h)

/-- Writing a file that is not empty removes no day. -/
theorem existsDay_setDay {raw : Bytes} (h : raw.length ≠ 0) (sym : String) (d : ℤ) {disk : Disk}
    {sym' : String} {d' : ℤ} (hday : disk.existsDay sym' d' = true) :
    (disk.setDay sym d raw).existsDay sym' d' = true := by
  by_cases heq : pathForDay sym' d' = pathForDay sym d
  · simp only [existsDay, setDay, heq, Function.update_self]
    exact decide_eq_true (Nat.pos_of_ne_zero h)
  · simp only [existsDay, setDay, Function.update_of_ne heq]
    exact hday

end Disk

variable (w : RawSyncWorker)

/-- The days of a job, symbol by symbol. -/
def RawSyncWorker.plannedDays (job : RawSyncJob) : List (String × ℤ) :=
  match w.fromisoformat job.fromDate, w.fromisoformat job.toDate with
  | .ok from_, .ok to_ => job.symbols.flatMap fun symbol =>
      (daysInRange from_ to_).map fun d => (Text.upper (Text.strip symbol), d)
  | _, _ => []

/-- The days of a job are counted right. -/
structure Accounted (disk : Disk) (job : RawSyncJob) : Prop where
  fromDate : ∃ from_, w.fromisoformat job.fromDate = .ok from_
  toDate : ∃ to_, w.fromisoformat job.toDate = .ok to_
  daysTotal : job.daysTotal = (w.plannedDays job).length
  daysDone : job.daysDone = job.countedAs .done
  daysSkipped : job.daysSkipped = job.countedAs .skipped
  daysFailed : job.daysFailed = job.countedAs .failed
  stored : ∀ c ∈ job.counted, c.2.2 ≠ .failed → disk.existsDay c.1 c.2.1 = true
  complete : job.status = .done → job.countedDays = w.plannedDays job

/-- What holds of the disk at any time.  Without a lock file no job is in the middle of its days. -/
structure Kept (disk : Disk) : Prop where
  named : ∀ id job, disk.jobs id = some job → job.jobId = id
  accounted : ∀ id job, disk.jobs id = some job → Accounted w disk job
  fresh : disk.lock = none → ∀ id job, disk.jobs id = some job → job.IsPending → job.counted = []

/-- What holds of the disk while a job is executed. -/
structure Busy (id : String) (job : RawSyncJob) (disk : Disk) : Prop where
  kept : Kept w disk
  locked : disk.lock ≠ none
  found : disk.jobs id = some job
  running : job.status = .running
  others : ∀ id', id' ≠ id → ∀ job', disk.jobs id' = some job' → job'.IsPending → job'.counted = []

variable {w}

theorem plannedDays_congr {job job' : RawSyncJob} (hsym : job'.symbols = job.symbols)
    (hfrom : job'.fromDate = job.fromDate) (hto : job'.toDate = job.toDate) :
    w.plannedDays job' = w.plannedDays job := by
  rw [RawSyncWorker.plannedDays, hsym, hfrom, hto, RawSyncWorker.plannedDays]

theorem plannedDays_of_dates {job : RawSyncJob} {from_ to_ : ℤ}
    (hfrom : w.fromisoformat job.fromDate = .ok from_)
    (hto : w.fromisoformat job.toDate = .ok to_) :
    w.plannedDays job = job.symbols.flatMap fun symbol =>
      (daysInRange from_ to_).map fun d => (Text.upper (Text.strip symbol), d) := by
  rw [RawSyncWorker.plannedDays, hfrom, hto]

namespace Accounted

variable {disk : Disk} {job : RawSyncJob}

theorem of_existsDay {disk' : Disk} (h : Accounted w disk job)
    (hdays : ∀ sym d, disk.existsDay sym d = true → disk'.existsDay sym d = true) :
    Accounted w disk' job :=
  { h with stored := fun c hc hm => hdays _ _ (h.stored c hc hm) }

/-- The status and the texts for the user may change, as long as the job is not done. -/
theorem of_status (h : Accounted w disk job) (status : Status) (lastError : Option String)
    (hdone : status ≠ .done) : Accounted w disk { job with status, lastError } :=
  { h with complete := fun hstatus => absurd hstatus hdone }

theorem countedOne {sym : String} {d : ℤ} {mark : Mark} {job' : RawSyncJob}
    (h : Accounted w disk job) (hone : job.CountedOne sym d mark job')
    (hrunning : job.status = .running)
    (hday : mark ≠ .failed → disk.existsDay sym d = true) : Accounted w disk job' := by
  have hplan : w.plannedDays job' = w.plannedDays job :=
    plannedDays_congr hone.symbols hone.fromDate hone.toDate
  refine ⟨hone.fromDate ▸ h.fromDate, hone.toDate ▸ h.toDate, ?_, ?_, ?_, ?_, ?_, ?_⟩
  · rw [hone.daysTotal, hplan, h.daysTotal]
  · rw [hone.daysDone, hone.countedAs, h.daysDone]
  · rw [hone.daysSkipped, hone.countedAs, h.daysSkipped]
  · rw [hone.daysFailed, hone.countedAs, h.daysFailed]
  · intro c hc hm
    rw [hone.counted, List.mem_append, List.mem_singleton] at hc
    rcases hc with hc | rfl
    · exact h.stored c hc hm
    · exact hday hm
  · intro hdone
    rw [hone.status, hrunning] at hdone
    cases hdone

end Accounted

namespace Kept

variable {disk : Disk}

theorem setJob (h : Kept w disk) {job : RawSyncJob} (hjob : Accounted w disk job)
    (hfresh : disk.lock = none → job.IsPending → job.counted = []) : Kept w (disk.setJob job) := by
  have hcases : ∀ id j, (disk.setJob job).jobs id = some j →
      (id = job.jobId ∧ j = job) ∨ disk.jobs id = some j := by
    intro id j hj
    by_cases hid : id = job.jobId
    · subst hid
      rw [Disk.jobs_setJob_self] at hj
      exact .inl ⟨rfl, (Option.some.inj hj).symm⟩
    · rw [Disk.jobs_setJob_of_ne hid] at hj
      exact .inr hj
  refine ⟨fun id j hj => ?_, fun id j hj => ?_, fun hlock id j hj hp => ?_⟩
  · rcases hcases id j hj with ⟨rfl, rfl⟩ | hj
    · rfl
    · exact h.named id j hj
  · have hacc : Accounted w disk j := by
      rcases hcases id j hj with ⟨rfl, rfl⟩ | hj
      · exact hjob
      · exact h.accounted id j hj
    exact hacc.of_existsDay fun _ _ hday => hday
  · rcases hcases id j hj with ⟨rfl, rfl⟩ | hj
    · exact hfresh hlock hp
    · exact h.fresh hlock id j hj hp

theorem setDay (h : Kept w disk) {raw : Bytes} (hraw : raw.length ≠ 0) (sym : String) (d : ℤ) :
    Kept w (disk.setDay sym d raw) := by
  refine ⟨?_, fun id job hjob => ?_, ?_⟩
  · rw [Disk.jobs_setDay]
    exact h.named
  · rw [Disk.jobs_setDay] at hjob
    exact (h.accounted id job hjob).of_existsDay fun _ _ => Disk.existsDay_setDay hraw sym d
  · rw [Disk.lock_setDay, Disk.jobs_setDay]
    exact h.fresh

theorem setLock (h : Kept w disk) {text : Option String}
    (hfresh : text = none → ∀ id job, disk.jobs id = some job → job.IsPending → job.counted = []) :
    Kept w (disk.setLock text) :=
  ⟨h.named, fun id job hjob => (h.accounted id job hjob).of_existsDay fun _ _ hday => hday, hfresh⟩

end Kept

namespace Busy

variable {id : String} {job : RawSyncJob} {disk : Disk}

theorem jobId (h : Busy w id job disk) : job.jobId = id := h.kept.named id job h.found

theorem accounted (h : Busy w id job disk) : Accounted w disk job :=
  h.kept.accounted id job h.found

/-- The job at work is persisted with another status, or after another day was counted. -/
theorem setJob (h : Busy w id job disk) {job' : RawSyncJob} (hid : job'.jobId = id)
    (hjob : Accounted w disk job') (hrunning : job'.status = .running) :
    Busy w id job' (disk.setJob job') := by
  refine ⟨h.kept.setJob hjob fun hlock => absurd hlock h.locked, h.locked, ?_, hrunning,
    fun id' hne j hj => ?_⟩
  · rw [← hid, Disk.jobs_setJob_self]
  · rw [Disk.jobs_setJob_of_ne (hid ▸ hne)] at hj
    exact h.others id' hne j hj

theorem setDay (h : Busy w id job disk) {raw : Bytes} (hraw : raw.length ≠ 0) (sym : String)
    (d : ℤ) : Busy w id job (disk.setDay sym d raw) := by
  refine ⟨h.kept.setDay hraw sym d, ?_, ?_, h.running, ?_⟩
  · rw [Disk.lock_setDay]
    exact h.locked
  · rw [Disk.jobs_setDay]
    exact h.found
  · rw [Disk.jobs_setDay]
    exact h.others

end Busy

/-! ### What is written -/

theorem downloadBytes_ne_nil {requests : ℕ → Response} {raw : Bytes} {n attempt : ℕ}
    (h : downloadBytes requests n attempt = some (some raw)) : raw.length ≠ 0 := by
  induction n generalizing attempt with
  | zero => cases h
  | succ n ih =>
      rw [downloadBytes] at h
      cases hreq : requests attempt with
      | answer status body =>
          simp only [hreq] at h
          split_ifs at h with _ hempty
          · cases h
          · cases h
            exact hempty
          · cases h
      | httpError code =>
          simp only [hreq] at h
          split_ifs at h
          · cases h
          · exact ih h
      | urlError =>
          simp only [hreq] at h
          exact ih h
      | otherError =>
          simp only [hreq] at h
          cases h

/-- A download is not empty. -/
theorem downloadDay_ne_nil {requests : ℕ → ℕ → Response} {raw : Bytes} {n attempt : ℕ}
    (h : downloadDay requests n attempt = some raw) : raw.length ≠ 0 := by
  induction n generalizing attempt with
  | zero => cases h
  | succ n ih =>
      rw [downloadDay] at h
      cases hbytes : downloadBytes (requests attempt) RETRY_ATTEMPTS 0 with
      | none =>
          rw [hbytes] at h
          exact ih h
      | some data =>
          rw [hbytes] at h
          exact downloadBytes_ne_nil (hbytes.trans (congrArg some h))

/-- Whether it is written or not, the file of the day is there afterwards. -/
theorem writeDayAtomic_survives {id : String} {job : RawSyncJob} {raw : Bytes}
    (hraw : raw.length ≠ 0) (sym : String) (d : ℤ) (force : Bool) :
    Survives (Busy w id job) (writeDayAtomic sym d raw force)
      (fun _ disk => Busy w id job disk ∧ disk.existsDay sym d = true) (Kept w) := by
  refine Survives.read_bind fun disk hbusy => Survives.ite (fun hskip => ?_) fun _ =>
    Survives.ite (fun hempty => absurd hempty hraw) fun _ => ?_
  · exact Survives.pure fun s hs => hs ▸ ⟨hbusy, hskip.1⟩
  · refine Survives.bind (Q := fun _ t => Busy w id job t ∧ t.existsDay sym d = true)
      (Survives.write (fun s hs => hs ▸ hbusy.kept) fun s hs => ?_)
      fun _ => Survives.pure fun _ ht => ht
    rw [hs]
    exact ⟨hbusy.setDay hraw sym d, Disk.existsDay_setDay_self hraw sym d disk⟩

/-- The job is persisted with one more day. -/
theorem persistJob_survives {id sym : String} {d : ℤ} {mark : Mark} {job job' : RawSyncJob}
    (hone : job.CountedOne sym d mark job') :
    Survives (fun disk => Busy w id job disk ∧ (mark ≠ .failed → disk.existsDay sym d = true))
      (persistJob job') (fun _ => Busy w id job') (Kept w) :=
  Survives.write (fun _ h => h.1.kept) fun _ h =>
    h.1.setJob (hone.jobId.trans h.1.jobId) (h.1.accounted.countedOne hone h.1.running h.2)
      (hone.status.trans h.1.running)

/-! ### A run under the lock -/

/-- What is the same of a job while its days are counted: the days it is for, and those counted
before. -/
structure Extends (days : List (String × ℤ)) (job job' : RawSyncJob) : Prop where
  symbols : job'.symbols = job.symbols
  fromDate : job'.fromDate = job.fromDate
  toDate : job'.toDate = job.toDate
  countedDays : job'.countedDays = job.countedDays ++ days

theorem Extends.refl (job : RawSyncJob) : Extends [] job job :=
  ⟨rfl, rfl, rfl, (List.append_nil _).symm⟩

theorem Extends.trans {days days' : List (String × ℤ)} {job job' job'' : RawSyncJob}
    (h : Extends days job job') (h' : Extends days' job' job'') :
    Extends (days ++ days') job job'' :=
  ⟨h'.symbols.trans h.symbols, h'.fromDate.trans h.fromDate, h'.toDate.trans h.toDate, by
    rw [h'.countedDays, h.countedDays, List.append_assoc]⟩

theorem RawSyncJob.CountedOne.extends {sym : String} {d : ℤ} {mark : Mark} {job job' : RawSyncJob}
    (h : job.CountedOne sym d mark job') : Extends [(sym, d)] job job' :=
  ⟨h.symbols, h.fromDate, h.toDate, h.countedDays⟩

/-- A day is counted, and is stored unless it is counted as failed. -/
theorem syncDay_survives {id : String} {job : RawSyncJob} (requests : ℕ → ℕ → Response)
    (sym : String) (d : ℤ) :
    Survives (Busy w id job) (w.syncDay requests sym d job)
      (fun job' disk => Busy w id job' disk ∧ Extends [(sym, d)] job job') (Kept w) := by
  -- whatever the mark, the job is persisted and handed on
  have hpersist : ∀ (mark : Mark) {job' : RawSyncJob} {P : Disk → Prop},
      job.CountedOne sym d mark job' →
      (∀ s, P s → Busy w id job s ∧ (mark ≠ .failed → s.existsDay sym d = true)) →
      Survives P (persistJob job' >>= fun _ => pure job')
        (fun job' disk => Busy w id job' disk ∧ Extends [(sym, d)] job job') (Kept w) :=
    fun mark _ _ hone hpre =>
      (((persistJob_survives hone).bind fun _ =>
        Survives.pure fun _ hbusy => ⟨hbusy, hone.extends⟩)).consequence hpre (fun _ _ h => h)
        fun _ h => h
  refine Survives.read_bind fun disk hbusy => Survives.ite (fun _ => ?_) fun hthere => ?_
  · cases hdown : downloadDay requests w.retries 0 with
    | none =>
        refine hpersist .failed ?_ fun s hs => hs ▸ ⟨hbusy, fun h => absurd rfl h⟩
        exact ⟨rfl, rfl, rfl, rfl, rfl, rfl, rfl, rfl, rfl, rfl⟩
    | some raw =>
        refine ((writeDayAtomic_survives (downloadDay_ne_nil hdown) sym d job.force).consequence
          (fun s hs => hs ▸ hbusy) (fun _ _ h => h) fun _ h => h).bind fun written => ?_
        cases written with
        | some path =>
            refine hpersist .done ?_ fun s hs => ⟨hs.1, fun _ => hs.2⟩
            exact ⟨rfl, rfl, rfl, rfl, rfl, rfl, rfl, rfl, rfl, rfl⟩
        | none =>
            refine hpersist .skipped ?_ fun s hs => ⟨hs.1, fun _ => hs.2⟩
            exact ⟨rfl, rfl, rfl, rfl, rfl, rfl, rfl, rfl, rfl, rfl⟩
  · rw [not_or, Bool.not_eq_false] at hthere
    refine hpersist .skipped ?_ fun s hs => hs ▸ ⟨hbusy, fun _ => hthere.1⟩
    exact ⟨rfl, rfl, rfl, rfl, rfl, rfl, rfl, rfl, rfl, rfl⟩

/-- All days of a symbol are counted. -/
theorem syncDays_survives {id : String} {job : RawSyncJob} (requests : ℤ → ℕ → ℕ → Response)
    (sym : String) (days : List ℤ) :
    Survives (Busy w id job) (w.syncDays requests sym days job)
      (fun job' disk => Busy w id job' disk ∧ Extends (days.map fun d => (sym, d)) job job')
      (Kept w) := by
  induction days generalizing job with
  | nil => exact Survives.pure fun _ hbusy => ⟨hbusy, Extends.refl job⟩
  | cons d days ih =>
      rw [RawSyncWorker.syncDays]
      by_cases hfailed : job.status = .failed
      · -- no job at work has failed
        exact fun p hbusy => absurd (hbusy.running.symm.trans hfailed) (by decide)
      · rw [if_neg hfailed]
        refine (syncDay_survives (requests d) sym d).bind fun job' =>
          Survives.of_and fun hday => ?_
        exact ih.consequence (fun _ h => h) (fun _ _ h => ⟨h.1, hday.trans h.2⟩) fun _ h => h

/-- All days of all symbols are counted. -/
theorem syncSymbols_survives {id : String} {job : RawSyncJob} (net : Network) (days : List ℤ)
    (k : ℕ) (symbols : List String) :
    Survives (Busy w id job) (w.syncSymbols net days k symbols job)
      (fun job' disk => Busy w id job' disk ∧
        Extends (symbols.flatMap fun symbol =>
          days.map fun d => (Text.upper (Text.strip symbol), d)) job job') (Kept w) := by
  induction symbols generalizing job k with
  | nil => exact Survives.pure fun _ hbusy => ⟨hbusy, Extends.refl job⟩
  | cons symbol symbols ih =>
      rw [RawSyncWorker.syncSymbols]
      refine (syncDays_survives (net k) _ days).bind fun job' =>
        Survives.of_and fun hdays => ?_
      exact (ih (k + 1)).consequence (fun _ h => h) (fun _ _ h => ⟨h.1, hdays.trans h.2⟩)
        fun _ h => h

/-- What holds when the days of a job are all counted, before it is persisted as done. -/
structure Finished (w : RawSyncWorker) (id : String) (job : RawSyncJob) (disk : Disk) : Prop where
  kept : Kept w disk
  locked : disk.lock ≠ none
  accounted : Accounted w disk job
  jobId : job.jobId = id
  done : job.status = .done
  others : ∀ id', id' ≠ id → ∀ j, disk.jobs id' = some j → j.IsPending → j.counted = []

/-- A job none of whose days was counted is done after its run. -/
theorem syncJob_survives {id : String} {job : RawSyncJob} {from_ to_ : ℤ} (net : Network)
    (hfrom : w.fromisoformat job.fromDate = .ok from_)
    (hto : w.fromisoformat job.toDate = .ok to_) (hnew : job.counted = []) :
    Survives (Busy w id job) (w.syncJob net job) (Finished w id) (Kept w) := by
  simp only [RawSyncWorker.syncJob, hfrom, hto]
  refine (syncSymbols_survives net (daysInRange from_ to_) 0 job.symbols).bind fun job' =>
    Survives.of_and fun hext => Survives.pure fun disk hbusy => ?_
  refine ⟨hbusy.kept, hbusy.locked, { hbusy.accounted with complete := fun _ => ?_ },
    hbusy.jobId, rfl, hbusy.others⟩
  calc job'.countedDays
      = job.countedDays ++ _ := hext.countedDays
    _ = w.plannedDays job := by
        rw [plannedDays_of_dates hfrom hto, RawSyncJob.countedDays, hnew, List.map_nil,
          List.nil_append]
    _ = w.plannedDays job' := (plannedDays_congr hext.symbols hext.fromDate hext.toDate).symm

/-- The job is persisted, and then the lock file goes: every other job that is pending is new. -/
theorem Finished.release_survives {id : String} {job : RawSyncJob} :
    Survives (Finished w id job)
      (persistJob job >>= fun _ => RawSyncWorker.releaseLock >>= fun _ =>
        pure (.ok job : Except String RawSyncJob))
      (fun result disk => Kept w disk ∧ ∃ job', result = .ok job' ∧ disk.jobs id = some job' ∧
        job'.status = .done) (Kept w) := by
  have hdone : ∀ {disk}, Finished w id job disk → ¬ job.IsPending := fun h hpend =>
    hpend.elim (fun hs => by cases h.done.symm.trans hs) fun hs => by cases h.done.symm.trans hs
  refine Survives.of_forall fun s hs => ?_
  have hkept : Kept w (s.setJob job) :=
    hs.kept.setJob hs.accounted fun hlock => absurd hlock hs.locked
  have hfound : (s.setJob job).jobs id = some job := by rw [← hs.jobId, Disk.jobs_setJob_self]
  refine Survives.bind (Q := fun _ t => t = s.setJob job)
    (Survives.write (fun t ht => ht ▸ hs.kept) fun t ht => ht ▸ rfl) fun _ => ?_
  refine Survives.bind
    (Q := fun _ t => Kept w t ∧ t.jobs id = some job)
    (Survives.write (fun t ht => ht ▸ hkept) fun t ht => ?_) fun _ => Survives.pure fun t ht =>
      ⟨ht.1, job, rfl, ht.2, hs.done⟩
  rw [ht]
  refine ⟨hkept.setLock fun _ id' j hj hpend => ?_, hfound⟩
  by_cases hid : id' = id
  · rw [hid, hfound] at hj
    exact absurd (Option.some.inj hj ▸ hpend) (hdone hs)
  · rw [Disk.jobs_setJob_of_ne (hs.jobId.symm ▸ hid)] at hj
    exact hs.others id' hid j hj hpend

/-! ### Runs -/

theorem getJob_survives {id : String} {C : Disk → Prop} (disk : Disk) :
    Survives (fun s => s = disk) (getJob id) (fun found s => s = disk ∧ found = disk.jobs id) C :=
  Survives.read_bind fun _ hs => Survives.pure fun _ ht => ⟨ht.trans hs, hs ▸ rfl⟩

/-- A lock file that is there stays, and is respected whatever its process is. -/
theorem acquireLock_survives_of_locked {disk : Disk} {C : Disk → Prop} (h : disk.lock ≠ none) :
    Survives (fun s => s = disk) w.acquireLock (fun acquired s => s = disk ∧ acquired = false) C := by
  refine Survives.read_bind fun t ht => ?_
  obtain ⟨text, htext⟩ := Option.ne_none_iff_exists'.1 h
  rw [ht, htext]
  exact Survives.pure fun s hs => ⟨hs, rfl⟩

/-- Without a lock file one is made. -/
theorem acquireLock_survives {disk : Disk} (hkept : Kept w disk) (h : disk.lock = none) :
    Survives (fun s => s = disk) w.acquireLock
      (fun acquired s => s = disk.setLock (some w.pid) ∧ acquired = true) (Kept w) := by
  refine Survives.read_bind fun t ht => ?_
  rw [ht, h]
  refine Survives.bind (Q := fun _ s => s = disk.setLock (some ""))
    (Survives.write (fun s hs => hs ▸ hkept) fun s hs => hs ▸ rfl) fun _ => ?_
  refine Survives.bind (Q := fun _ s => s = disk.setLock (some w.pid))
    (Survives.write (fun s hs => hs ▸ hkept.setLock nofun) fun s hs => hs ▸ rfl) fun _ => ?_
  exact Survives.pure fun s hs => ⟨hs, rfl⟩

/-- A job that is pending is executed to its end if there is no lock file. -/
theorem runJob_executes {id : String} {job : RawSyncJob} (net : Network) (hjob : job.IsPending) :
    Survives (fun disk => Kept w disk ∧ disk.jobs id = some job ∧ disk.lock = none)
      (w.runJob net id)
      (fun result disk => Kept w disk ∧ ∃ job', result = .ok job' ∧ disk.jobs id = some job' ∧
        job'.status = .done)
      (Kept w) := by
  refine Survives.of_forall fun disk ⟨hkept, hfound, hlock⟩ => ?_
  have hnew : job.counted = [] := hkept.fresh hlock id job hfound hjob
  have hacc : Accounted w disk job := hkept.accounted id job hfound
  obtain ⟨from_, hfrom⟩ := hacc.fromDate
  obtain ⟨to_, hto⟩ := hacc.toDate
  refine (getJob_survives disk).bind fun found => Survives.of_and fun hread => ?_
  rw [hread, hfound]
  refine Survives.ite (fun h => absurd hjob (not_or.2 h)) fun _ => ?_
  refine (acquireLock_survives hkept hlock).bind fun acquired => Survives.of_and fun hacq => ?_
  refine Survives.ite (fun h => by cases hacq.symm.trans h) fun _ => ?_
  have hid : job.jobId = id := hkept.named id job hfound
  have hlocked : Kept w (disk.setLock (some w.pid)) := hkept.setLock nofun
  have hrunning : Accounted w (disk.setLock (some w.pid)) { job with status := .running } :=
    (hlocked.accounted id job hfound).of_status .running job.lastError nofun
  -- from here on the job is at work, and nothing of it has been counted
  refine Survives.bind (Q := fun _ => Busy w id { job with status := .running })
    (Survives.write (fun s hs => hs ▸ hlocked) fun s hs => ?_) fun _ => ?_
  · rw [hs]
    refine ⟨hlocked.setJob hrunning nofun, nofun, ?_, rfl, fun id' hne j hj hpend => ?_⟩
    · rw [← hid]
      exact Disk.jobs_setJob_self { job with status := .running } _
    · rw [Disk.jobs_setJob_of_ne (hid ▸ hne)] at hj
      exact hkept.fresh hlock id' j hj hpend
  · have hsync : Survives (Busy w id { job with status := .running })
        (w.syncJob net { job with status := .running }) (Finished w id) (Kept w) :=
      syncJob_survives net hfrom hto hnew
    exact hsync.bind fun job' => Finished.release_survives

/-- A job that is pending while there is a lock file is refused. -/
theorem runJob_refuses {id : String} {job : RawSyncJob} (net : Network) (hjob : job.IsPending) :
    Survives (fun disk => Kept w disk ∧ disk.jobs id = some job ∧ disk.lock ≠ none)
      (w.runJob net id)
      (fun result disk => Kept w disk ∧ ∃ job', result = .ok job' ∧ job'.status = .failed)
      (Kept w) := by
  refine Survives.of_forall fun disk ⟨hkept, hfound, hlock⟩ => ?_
  refine (getJob_survives disk).bind fun found => Survives.of_and fun hread => ?_
  rw [hread, hfound]
  refine Survives.ite (fun h => absurd hjob (not_or.2 h)) fun _ => ?_
  refine (acquireLock_survives_of_locked hlock).bind fun acquired => Survives.of_and fun hacq => ?_
  refine Survives.ite (fun _ => ?_) fun h => absurd hacq h
  refine Survives.bind (Q := fun _ => Kept w) (Survives.write (fun s hs => hs ▸ hkept)
    fun s hs => ?_) fun _ => Survives.pure fun s hs => ⟨hs, _, rfl, rfl⟩
  rw [hs]
  exact hkept.setJob ((hkept.accounted id job hfound).of_status .failed _ nofun)
    fun h => absurd h hlock

/-- A job that is not pending is given back as it is. -/
theorem runJob_of_not_isPending {id : String} {job : RawSyncJob} (net : Network)
    (hjob : ¬ job.IsPending) :
    Survives (fun disk => Kept w disk ∧ disk.jobs id = some job) (w.runJob net id)
      (fun result disk => Kept w disk ∧ result = .ok job ∧ disk.jobs id = some job) (Kept w) := by
  refine Survives.of_forall fun disk ⟨hkept, hfound⟩ => ?_
  refine (getJob_survives disk).bind fun found => Survives.of_and fun hread => ?_
  rw [hread, hfound]
  refine Survives.ite (fun _ => ?_) fun h => absurd (not_or.1 hjob) h
  exact Survives.pure fun s hs => hs ▸ ⟨hkept, rfl, hfound⟩

/-- Whatever run of whatever job there is, the disk stays as it is to be, and so does it at each
crash. -/
theorem runJob_survives (net : Network) (id : String) :
    Survives (Kept w) (w.runJob net id) (fun _ => Kept w) (Kept w) := by
  refine Survives.of_forall fun disk hkept => ?_
  cases hfound : disk.jobs id with
  | none =>
      refine (getJob_survives disk).bind fun found => Survives.of_and fun hread => ?_
      rw [hread, hfound]
      exact Survives.pure fun s hs => hs ▸ hkept
  | some job =>
      by_cases hjob : job.IsPending
      · by_cases hlock : disk.lock = none
        · exact (runJob_executes net hjob).consequence (fun s hs => hs ▸ ⟨hkept, hfound, hlock⟩)
            (fun _ _ h => h.1) fun _ h => h
        · exact (runJob_refuses net hjob).consequence (fun s hs => hs ▸ ⟨hkept, hfound, hlock⟩)
            (fun _ _ h => h.1) fun _ h => h
      · exact (runJob_of_not_isPending net hjob).consequence (fun s hs => hs ▸ ⟨hkept, hfound⟩)
          (fun _ _ h => h.1) fun _ h => h

/-- The days of a new job are counted right, and so the disk stays as it is to be. -/
theorem createJob_survives (id : String) (symbols : List String) (fromDate toDate : String)
    (force : Bool) :
    Survives (Kept w) (w.createJob id symbols fromDate toDate force) (fun _ => Kept w)
      (Kept w) := by
  rw [RawSyncWorker.createJob]
  cases hfrom : w.fromisoformat fromDate with
  | error e => exact Survives.pure fun _ h => h
  | ok from_ =>
      cases hto : w.fromisoformat toDate with
      | error e => exact Survives.pure fun _ h => h
      | ok to_ =>
          refine Survives.bind (Q := fun _ => Kept w)
            (Survives.write (fun _ h => h) fun disk hkept => ?_) fun _ => Survives.pure fun _ h => h
          refine hkept.setJob ⟨⟨from_, hfrom⟩, ⟨to_, hto⟩, ?_, rfl, rfl, rfl, nofun, nofun⟩
            fun _ _ => rfl
          rw [plannedDays_of_dates hfrom hto, List.length_flatMap]
          simp only [List.length_map]

/-! ### The disk after any events -/

/-- What happens to the disk: processes that create or run a job, and crash or do not. -/
inductive Event
  | create (id : String) (symbols : List String) (fromDate toDate : String) (force : Bool)
      (crashIn : Option ℕ)
  | run (net : Network) (id : String) (crashIn : Option ℕ)

/-- The disk that a process leaves. -/
def step (w : RawSyncWorker) (disk : Disk) : Event → Disk
  | .create id symbols fromDate toDate force crashIn =>
      (w.createJob id symbols fromDate toDate force).left crashIn disk
  | .run net id crashIn => (w.runJob net id).left crashIn disk

/-- The disk after some events, which was empty before. -/
def diskAfter (w : RawSyncWorker) (events : List Event) : Disk := events.foldl (step w) {}

theorem kept_step {disk : Disk} (h : Kept w disk) (event : Event) : Kept w (step w disk event) := by
  cases event with
  | create id symbols fromDate toDate force crashIn =>
      exact (createJob_survives id symbols fromDate toDate force).left h crashIn
  | run net id crashIn => exact (runJob_survives net id).left h crashIn

theorem kept_diskAfter (w : RawSyncWorker) (events : List Event) : Kept w (diskAfter w events) :=
  List.foldlRecOn events (step w) ⟨nofun, nofun, nofun⟩ fun _ h event _ => kept_step h event

/-! ### Which runs do what they are to do -/

/-- A job that was executed: it is done, each of its days was counted once, the counters say as
what, and the days that were not counted as failed are stored. -/
structure Serves (w : RawSyncWorker) (id : String) (job : RawSyncJob) (disk : Disk) : Prop where
  persisted : disk.jobs id = some job
  done : job.status = .done
  executed : job.countedDays = w.plannedDays job
  daysDone : job.daysDone = job.countedAs .done
  daysSkipped : job.daysSkipped = job.countedAs .skipped
  daysFailed : job.daysFailed = job.countedAs .failed
  total : job.daysDone + job.daysSkipped + job.daysFailed = job.daysTotal
  progress : job.progressPct ≤ 100
  stored : ∀ c ∈ job.counted, c.2.2 ≠ .failed → disk.existsDay c.1 c.2.1 = true

/-- A run that no crash ends gives back a job that was executed. -/
def Served (w : RawSyncWorker) (net : Network) (id : String) (disk : Disk) : Prop :=
  ∃ job after, w.runJob net id ⟨disk, none⟩ = .ok (.ok job) ⟨after, none⟩ ∧ Serves w id job after

theorem roundTenths_intCast (n : ℤ) : roundTenths n = n := by
  have hfloor : ⌊(10 * n : ℚ)⌋ = 10 * n := by
    rw [show (10 * n : ℚ) = ((10 * n : ℤ) : ℚ) by push_cast; rfl, Int.floor_intCast]
  simp only [roundTenths, hfloor]
  push_cast
  rw [if_pos (.inl (by rw [sub_self]; exact one_half_pos)), mul_div_cancel_left₀ _ (by norm_num)]

theorem progressPct_le {job : RawSyncJob}
    (h : job.daysDone + job.daysSkipped + job.daysFailed = job.daysTotal) :
    job.progressPct ≤ 100 := by
  have hsum : (job.daysDone + job.daysSkipped + job.daysFailed : ℚ) = job.daysTotal := by
    exact_mod_cast h
  rw [RawSyncJob.progressPct, hsum]
  by_cases htotal : job.daysTotal = 0
  · have hzero : roundTenths 0 = 0 := roundTenths_intCast 0
    simp [htotal, hzero]
  · have hne : (job.daysTotal : ℚ) ≠ 0 := Nat.cast_ne_zero.2 htotal
    have hround : roundTenths 100 = 100 := roundTenths_intCast 100
    simp only [htotal, if_false, mul_div_cancel_right₀ _ hne, hround, le_refl]

/-- A job that is recorded as done was executed. -/
theorem serves_of_done {id : String} {job : RawSyncJob} {disk : Disk} (hkept : Kept w disk)
    (hfound : disk.jobs id = some job) (hdone : job.status = .done) : Serves w id job disk := by
  have hacc := hkept.accounted id job hfound
  have htotal : job.daysDone + job.daysSkipped + job.daysFailed = job.daysTotal := by
    calc job.daysDone + job.daysSkipped + job.daysFailed
        = job.counted.length := by
          rw [hacc.daysDone, hacc.daysSkipped, hacc.daysFailed, job.sum_countedAs]
      _ = job.countedDays.length := (List.length_map ..).symm
      _ = job.daysTotal := by rw [hacc.complete hdone, hacc.daysTotal]
  exact ⟨hfound, hdone, hacc.complete hdone, hacc.daysDone, hacc.daysSkipped, hacc.daysFailed,
    htotal, progressPct_le htotal, hacc.stored⟩

/-- A run is refused once a lock file was left. -/
theorem not_served_of_locked {id : String} {job : RawSyncJob} {disk : Disk} (net : Network)
    (hkept : Kept w disk) (hfound : disk.jobs id = some job) (hjob : job.IsPending)
    (hlock : disk.lock ≠ none) : ¬ Served w net id disk := by
  rintro ⟨job', after, hrun, hserves⟩
  obtain ⟨result, after', hrun', -, job'', rfl, hfailed⟩ :=
    (runJob_refuses net hjob).run ⟨hkept, hfound, hlock⟩
  cases hrun.symm.trans hrun'
  cases hserves.done.symm.trans hfailed

/-- After whatever jobs were created and run, with whatever crashes and downloads, a run does what it
is to do for its job if and only if the job is done already, or is pending while there is no lock
file. -/
theorem served_iff (w : RawSyncWorker) (events : List Event) (net : Network) (id : String)
    (job : RawSyncJob) (hfound : (diskAfter w events).jobs id = some job) :
    Served w net id (diskAfter w events) ↔
      job.status = .done ∨ (job.IsPending ∧ (diskAfter w events).lock = none) := by
  have hkept := kept_diskAfter w events
  constructor
  · intro hserved
    by_cases hjob : job.IsPending
    · refine .inr ⟨hjob, ?_⟩
      by_contra hlock
      exact not_served_of_locked net hkept hfound hjob hlock hserved
    · obtain ⟨job', after, hrun, hserves⟩ := hserved
      obtain ⟨result, after', hrun', -, rfl, -⟩ :=
        (runJob_of_not_isPending net hjob).run ⟨hkept, hfound⟩
      cases hrun.symm.trans hrun'
      exact .inl hserves.done
  · rintro (hdone | ⟨hjob, hlock⟩)
    · have hjob : ¬ job.IsPending :=
        fun h => h.elim (fun hs => by cases hdone.symm.trans hs) fun hs => by cases hdone.symm.trans hs
      obtain ⟨result, after, hrun, hkept', rfl, hfound'⟩ :=
        (runJob_of_not_isPending net hjob).run ⟨hkept, hfound⟩
      exact ⟨job, after, hrun, serves_of_done hkept' hfound' hdone⟩
    · obtain ⟨result, after, hrun, hkept', job', rfl, hfound', hdone⟩ :=
        (runJob_executes net hjob).run ⟨hkept, hfound, hlock⟩
      exact ⟨job', after, hrun, serves_of_done hkept' hfound' hdone⟩

/-- A worker for January 2024. -/
def exampleWorker : RawSyncWorker where
  retries := 3
  pid := "4711"
  fromisoformat s :=
    if s = "2024-01-02" then .ok 19724
    else if s = "2024-01-04" then .ok 19726
    else .error ("Invalid isoformat string: " ++ s)

/-- The creation of a job for two days. -/
def exampleCreate : Event := .create "a1" ["EURUSD"] "2024-01-02" "2024-01-04" false none

/-- Every day is there to be downloaded. -/
def exampleNetwork : Network := fun _ _ _ _ => .answer 200 [93]

/-- The job as it is created. -/
def exampleJob : RawSyncJob where
  jobId := "a1"
  status := .queued
  symbols := ["EURUSD"]
  fromDate := "2024-01-02"
  toDate := "2024-01-04"
  force := false
  daysTotal := 2

theorem served_iff_exampleJob :
    Served exampleWorker exampleNetwork "a1" (diskAfter exampleWorker [exampleCreate]) ↔
      exampleJob.status = .done ∨
        (exampleJob.IsPending ∧ (diskAfter exampleWorker [exampleCreate]).lock = none) :=
  served_iff exampleWorker [exampleCreate] exampleNetwork "a1" exampleJob (by decide)

/-- The process of the first run crashes when it has counted one of the two days.  The next run is
refused, and fails the job. -/
theorem not_served_after_crash :
    ¬ Served exampleWorker exampleNetwork "a1"
      (diskAfter exampleWorker [exampleCreate, .run exampleNetwork "a1" (some 5)]) := by
  have hfound : (diskAfter exampleWorker
      [exampleCreate, .run exampleNetwork "a1" (some 5)]).jobs "a1" =
        some { exampleJob with
          status := .running, daysDone := 1, counted := [("EURUSD", 19724, .done)] } := by
    decide
  exact not_served_of_locked exampleNetwork (kept_diskAfter exampleWorker _) hfound (.inr rfl)
    (by decide)

end RawSync
