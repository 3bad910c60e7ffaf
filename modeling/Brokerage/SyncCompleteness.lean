/-
**What a sync job leaves on the disk.**

A job that is done has a file of every month that it downloaded itself, with all that the source
offered when the job was started; for a month of which the source had nothing there is nothing to
have.  But a job skips the months that are there already.  Such a month has what the source offered
when it was last downloaded, which may be less than when the job was started, if the month was in
progress then.

What a job knows of its months is kept by the steps of the others: a worker that has the lock of a
month is the only one to write it, and what is written was asked for later than what it replaces.

Main definitions:

* `SyncManager.Grounded` — the files and marks come from answers of the source, or were there;
* `SyncManager.WorkerKnows`, `SyncManager.RunKnows` — what a job knows of its months;
* `SyncManager.Later` — what a step keeps of the files, the locks and the notes;
* `SyncManager.Holds` — the disk has what was offered at a time.

Main results:

* `SyncManager.resumeWorker_effect` — what a worker does to the disk and to the locks;
* `SyncManager.done_holds` — what the disk has of the months of a job that is done;
* `SyncManager.month_in_progress` — a job that skips a month in progress.
-/

import Brokerage.SyncAccounting

set_option relaxedAutoImplicit false
set_option autoImplicit false

/-- The month whose lock a worker has. -/
def WorkerAt.held : WorkerAt → Option (ℕ × ℕ)
  | .fetching ym _ _ _ => some ym
  | .sleeping ym _ _ => some ym
  | .suspecting ym _ _ => some ym
  | .retrying ym _ _ => some ym
  | .counting ym _ true => some ym
  | _ => none

theorem WorkerAt.month?_of_held {w : WorkerAt} {ym : ℕ × ℕ} (h : w.held = some ym) :
    w.month? = some ym := by
  cases w with
  | counting ym' outcome locked =>
      cases locked with
      | true => exact h
      | false => cases h
  | taking => cases h
  | locking _ => cases h
  | gone => cases h
  | _ => exact h

/-- The month that a worker has written, and not yet marked. -/
def WorkerAt.wrote : WorkerAt → Option (ℕ × ℕ)
  | .suspecting ym _ _ => some ym
  | .retrying ym _ (some _) => some ym
  | _ => none

/-- The months whose locks the workers of a job have. -/
def SyncRun.held (run : SyncRun) : List (ℕ × ℕ) := run.workers.filterMap WorkerAt.held

namespace SyncManager

/-! ### What is known of the months -/

/-- A disk has nothing of a month, and notes that. -/
def EmptyIn (base : HistoricalParquet) (ym : ℕ × ℕ) : Prop :=
  base.status ym = some .empty ∨
    (base.files.get? ym).map (fun file => (HistoricalParquet.monthInfo file).status) = some .empty

/-- The files and marks come from the answers that are noted, or were on the disk at the start. -/
structure Grounded (env : SyncEnv) (base : HistoricalParquet) (s : SyncShared) : Prop where
  written : ∀ ym t, s.written.get? ym = some t → t ≤ s.clock ∧
    ∃ rows, rows ≠ [] ∧ s.disk.files.get? ym = some (some rows) ∧ ∀ c ∈ env.offered t ym, c ∈ rows
  emptied : ∀ ym t, s.emptied.get? ym = some t → t ≤ s.clock ∧ env.offered t ym = []
  files : ∀ ym, s.written.get? ym = none → s.disk.files.get? ym = base.files.get? ym
  marks : ∀ ym, s.disk.status ym = some .empty →
    (∃ t, s.emptied.get? ym = some t) ∨ EmptyIn base ym

/-- There is a reason to skip a month: an answer of the source, or what was there at the start. -/
def Present (base : HistoricalParquet) (s : SyncShared) (ym : ℕ × ℕ) : Prop :=
  (∃ t, s.written.get? ym = some t) ∨ (∃ t, s.emptied.get? ym = some t) ∨
    base.hasMonth ym = true ∨ EmptyIn base ym

/-- What is known of a month that a job counts, if the job was started at some time. -/
def Known (base : HistoricalParquet) (s : SyncShared) (startedAt : ℕ) (ym : ℕ × ℕ) :
    MonthOutcome → Prop
  | .done => ∃ t, startedAt ≤ t ∧ s.written.get? ym = some t
  | .empty => ∃ t, startedAt ≤ t ∧ s.emptied.get? ym = some t
  | .skipped => Present base s ym
  | .failed => True

/-- What a worker knows of its month. -/
def WorkerKnows (base : HistoricalParquet) (s : SyncShared) (startedAt : ℕ) : WorkerAt → Prop
  | .fetching ym _ _ asked =>
      startedAt ≤ asked ∧ asked ≤ s.clock ∧ (∀ t, s.written.get? ym = some t → t ≤ asked) ∧
        ∀ t, s.emptied.get? ym = some t → t ≤ asked
  | .suspecting ym _ _ => Known base s startedAt ym .done
  | .retrying ym _ (some _) => Known base s startedAt ym .done
  | .counting ym outcome _ => Known base s startedAt ym outcome
  | _ => True

/-- What a job knows of its months. -/
structure RunKnows (base : HistoricalParquet) (s : SyncShared) (startedAt : ℕ) (run : SyncRun) :
    Prop where
  tf : run.tf = "1m"
  started : startedAt ≤ s.clock
  locks : ∀ ym ∈ run.held, ("1m", ym) ∈ s.monthLocks
  workers : ∀ w ∈ run.workers, WorkerKnows base s startedAt w
  counted : ∀ e ∈ run.counted, Known base s startedAt e.1 e.2
  known : ∀ ym ∈ run.known, Present base s ym

/-! ### What a worker does to the disk and to the locks -/

/-- A worker keeps the lock that it has, takes one that is free, or gives its lock back. -/
inductive LockStep (tf : String) (locks locks' : List (String × ℕ × ℕ))
    (held held' : Option (ℕ × ℕ)) : Prop
  | keeps (same : locks' = locks) (held : held' = held)
  | takes (ym : ℕ × ℕ) (free : (tf, ym) ∉ locks) (before : held = none) (after : held' = some ym)
      (locks : locks' = (tf, ym) :: locks)
  | gives (ym : ℕ × ℕ) (before : held = some ym) (after : held' = none)
      (locks : locks' = locks.erase (tf, ym))

/-- A worker leaves the disk as it is; or it notes that the source has nothing of a month; or it
writes what the source has; or it marks a month that it has written. -/
inductive DiskStep (env : SyncEnv) (s s' : SyncShared) (w w' : WorkerAt) : Prop
  | keeps (disk : s'.disk = s.disk) (written : s'.written = s.written)
      (emptied : s'.emptied = s.emptied) (wrote : w'.wrote = none ∨ w'.wrote = w.wrote)
  | empties (ym : ℕ × ℕ) (attempt retriesUsed asked : ℕ)
      (from_ : w = .fetching ym attempt retriesUsed asked) (nothing : env.offered asked ym = [])
      (disk : s'.disk = s.disk ∨ s'.disk = s.disk.markEmpty ym) (written : s'.written = s.written)
      (emptied : s'.emptied = s.emptied.set ym asked) (wrote : w'.wrote = none)
  | writes (ym : ℕ × ℕ) (attempt retriesUsed asked : ℕ) (candles : List OhlcvRow)
      (from_ : w = .fetching ym attempt retriesUsed asked) (rows : candles ≠ [])
      (all : ∀ c ∈ env.offered asked ym, c ∈ candles)
      (disk : s'.disk = { s.disk with files := s.disk.files.set ym (some candles) })
      (written : s'.written = s.written.set ym asked) (emptied : s'.emptied = s.emptied)
      (wrote : w'.wrote = none ∨ w'.wrote = some ym)
  | marks (ym : ℕ × ℕ) (entry : CoverageEntry) (from_ : w.wrote = some ym)
      (done : entry.status = .done) (disk : s'.disk = s.disk.mark ym entry)
      (written : s'.written = s.written) (emptied : s'.emptied = s.emptied)
      (wrote : w'.wrote = none)

/-- What a step of a worker does to the disk and to the locks, and what is known after it. -/
structure WorkerEffect (env : SyncEnv) (s s' : SyncShared) (run run' : SyncRun) (k : ℕ)
    (w w' : WorkerAt) : Prop where
  workers : run'.workers = run.workers.set k w'
  clock : s'.clock = s.clock
  locks : LockStep run.tf s.monthLocks s'.monthLocks w.held w'.held
  disk : DiskStep env s s' w w'
  knows : ∀ base startedAt, Grounded env base s → startedAt ≤ s.clock →
    WorkerKnows base s startedAt w → WorkerKnows base s' startedAt w' ∧
      ∀ e ∈ run'.counted, e ∈ run.counted ∨ Known base s' startedAt e.1 e.2
  known : run'.known = run.known
  tf : run'.tf = run.tf

variable {env : SyncEnv} {base : HistoricalParquet} {s s' : SyncShared} {run run' : SyncRun}
  {k startedAt : ℕ} {w w' : WorkerAt} {ym : ℕ × ℕ}

/-- A month with rows is there for a reason. -/
theorem Grounded.present_of_hasMonth (hs : Grounded env base s) (h : s.disk.hasMonth ym = true) :
    Present base s ym := by
  cases hwritten : s.written.get? ym with
  | some t => exact Or.inl ⟨t, hwritten⟩
  | none =>
      rw [HistoricalParquet.hasMonth, hs.files ym hwritten] at h
      exact Or.inr (Or.inr (Or.inl h))

/-- A worker that has got the lock of a month checks it. -/
theorem checkMonth_effect (env : SyncEnv) (k : ℕ) (hfree : (run.tf, ym) ∉ s.monthLocks)
    (indexOk : Bool) :
    ∃ w', WorkerEffect env s (checkMonth s run k ym indexOk).1 run
      (checkMonth s run k ym indexOk).2 k (.locking ym) w' := by
  rw [checkMonth]
  dsimp only
  split
  · next hmonth =>
      exact ⟨_, rfl, rfl, .takes ym hfree rfl rfl rfl, .keeps rfl rfl rfl (Or.inl rfl),
        fun _ _ hs _ _ => ⟨hs.present_of_hasMonth hmonth, fun _ he => Or.inl he⟩, rfl, rfl⟩
  · split
    · next hempty =>
        exact ⟨_, rfl, rfl, .takes ym hfree rfl rfl rfl, .keeps rfl rfl rfl (Or.inl rfl),
          fun _ _ hs _ _ => ⟨Or.inr ((hs.marks ym hempty.2).imp id Or.inr),
            fun _ he => Or.inl he⟩, rfl, rfl⟩
    · split
      · exact ⟨_, rfl, rfl, .keeps (List.erase_cons_head _ _) rfl,
          .keeps rfl rfl rfl (Or.inl rfl), fun _ _ _ _ _ => ⟨trivial, fun _ he => Or.inl he⟩, rfl,
          rfl⟩
      · exact ⟨_, rfl, rfl, .takes ym hfree rfl rfl rfl, .keeps rfl rfl rfl (Or.inl rfl),
          fun _ _ hs hstart _ => ⟨⟨hstart, le_rfl, fun t ht => (hs.written ym t ht).1,
            fun t ht => (hs.emptied ym t ht).1⟩, fun _ he => Or.inl he⟩, rfl, rfl⟩

theorem held_afterAttempt (ym : ℕ × ℕ) (attempt retriesUsed : ℕ) :
    (afterAttempt ym attempt retriesUsed).held = some ym := by
  rw [afterAttempt]
  split <;> rfl

theorem wrote_afterAttempt (ym : ℕ × ℕ) (attempt retriesUsed : ℕ) :
    (afterAttempt ym attempt retriesUsed).wrote = none := by
  rw [afterAttempt]
  split <;> rfl

theorem workerKnows_afterAttempt (base : HistoricalParquet) (s : SyncShared) (startedAt : ℕ)
    (ym : ℕ × ℕ) (attempt retriesUsed : ℕ) :
    WorkerKnows base s startedAt (afterAttempt ym attempt retriesUsed) := by
  rw [afterAttempt]
  split <;> trivial

/-- What a worker does with candles that it has written. -/
theorem afterWrite_effect (s : SyncShared) (run : SyncRun) (k : ℕ) (ym : ℕ × ℕ)
    (attempt retriesUsed : ℕ) (candles : List OhlcvRow) (gate : GateVerdict) :
    ∃ w', (afterWrite s run k ym attempt retriesUsed candles gate).2 = run.put k w' ∧
      (∃ locks, (afterWrite s run k ym attempt retriesUsed candles gate).1 =
        { s with monthLocks := locks } ∧ LockStep run.tf s.monthLocks locks (some ym) w'.held) ∧
      (w'.wrote = none ∨ w'.wrote = some ym) ∧
      ∀ base startedAt, Known base s startedAt ym .done → WorkerKnows base s startedAt w' := by
  rw [afterWrite.eq_def]
  split
  · cases gate with
    | raises =>
        exact ⟨_, rfl, ⟨_, rfl, .gives ym rfl rfl rfl⟩, Or.inl rfl, fun _ _ _ => trivial⟩
    | rejects =>
        exact ⟨_, rfl, ⟨_, rfl, .keeps rfl (held_afterAttempt ym attempt retriesUsed)⟩,
          Or.inl (wrote_afterAttempt ym attempt retriesUsed),
          fun base startedAt _ => workerKnows_afterAttempt base s startedAt ym attempt retriesUsed⟩
    | accepts suspect =>
        cases suspect with
        | false =>
            exact ⟨_, rfl, ⟨_, rfl, .keeps rfl rfl⟩, Or.inr rfl, fun _ _ hknown => hknown⟩
        | true =>
            exact ⟨_, rfl, ⟨_, rfl, .keeps rfl rfl⟩, Or.inr rfl, fun _ _ hknown => hknown⟩
  · exact ⟨_, rfl, ⟨_, rfl, .keeps rfl rfl⟩, Or.inr rfl, fun _ _ hknown => hknown⟩

/-- What a worker does with the candles of the source. -/
theorem afterFetch_effect (s : SyncShared) (run : SyncRun) (k attempt retriesUsed : ℕ) {asked : ℕ}
    {candles : List OhlcvRow} (hall : ∀ c ∈ env.offered asked ym, c ∈ candles)
    (marked written : Bool) (gate : GateVerdict) :
    ∃ w', WorkerEffect env s
      (afterFetch s run k ym attempt retriesUsed asked candles marked written gate).1 run
      (afterFetch s run k ym attempt retriesUsed asked candles marked written gate).2 k
      (.fetching ym attempt retriesUsed asked) w' := by
  rw [afterFetch]
  split
  · next hnil =>
      have hnothing : env.offered asked ym = [] :=
        List.eq_nil_iff_forall_not_mem.2 fun c hc => by
          have hmem := hall c hc
          rw [hnil] at hmem
          cases hmem
      refine ⟨_, rfl, rfl, .keeps rfl rfl, .empties ym attempt retriesUsed asked rfl hnothing ?_ rfl
        rfl rfl, fun _ _ _ _ hw => ⟨⟨asked, hw.1, Dict.get?_set_self _ _ _⟩,
          fun _ he => Or.inl he⟩, rfl, rfl⟩
      cases marked with
      | true => exact Or.inr rfl
      | false => exact Or.inl rfl
  · next hrows =>
      split
      · exact ⟨_, rfl, rfl, .keeps rfl rfl, .keeps rfl rfl rfl (Or.inl rfl),
          fun _ _ _ _ _ => ⟨trivial, fun _ he => Or.inl he⟩, rfl, rfl⟩
      · next disk hdisk =>
          have hfiles : disk = { s.disk with files := s.disk.files.set ym (some candles) } := by
            cases written with
            | false => cases hdisk
            | true =>
                rw [if_pos rfl, HistoricalParquet.writeMonth, if_neg hrows] at hdisk
                split at hdisk
                · exact (Option.some.inj hdisk).symm
                · cases hdisk
          obtain ⟨w', hput, ⟨locks, hshared, hlocks⟩, hwrote, hknows⟩ :=
            afterWrite_effect { s with disk := disk, written := s.written.set ym asked } run k ym
              attempt retriesUsed candles gate
          rw [hput, hshared]
          refine ⟨w', rfl, rfl, hlocks, .writes ym attempt retriesUsed asked candles rfl hrows hall
            hfiles rfl rfl hwrote, fun base startedAt _ _ hw => ⟨?_, fun _ he => Or.inl he⟩, rfl,
            rfl⟩
          exact hknows base startedAt ⟨asked, hw.1, Dict.get?_set_self _ _ _⟩

theorem markWritten_cases (disk : HistoricalParquet) (ym : ℕ × ℕ) (candles : List OhlcvRow) :
    markWritten disk ym candles = disk ∨
      ∃ entry : CoverageEntry, entry.status = .done ∧
        markWritten disk ym candles = disk.mark ym entry := by
  cases candles with
  | nil => exact Or.inl rfl
  | cons row rows => exact Or.inr ⟨_, rfl, rfl⟩

/-- What a step of a worker does. -/
theorem resumeWorker_effect {move : WorkerMove}
    (h : resumeWorker env s run k w move = some (s', run')) :
    ∃ w', WorkerEffect env s s' run run' k w w' := by
  revert h
  cases w with
  | taking =>
      cases move with
      | go marked =>
          rw [resumeWorker]
          split
          · rintro ⟨⟩
            exact ⟨.gone, rfl, rfl, .keeps rfl rfl, .keeps rfl rfl rfl (Or.inl rfl),
              fun _ _ _ _ _ => ⟨trivial, fun _ he => Or.inl he⟩, rfl, rfl⟩
          · next ym queue hqueue =>
              rintro ⟨⟩
              exact ⟨.locking ym, rfl, rfl, .keeps rfl rfl, .keeps rfl rfl rfl (Or.inl rfl),
                fun _ _ _ _ _ => ⟨trivial, fun _ he => Or.inl he⟩, rfl, rfl⟩
      | _ => rintro ⟨⟩
  | locking ym =>
      cases move with
      | locked storeOk indexOk =>
          rw [resumeWorker]
          split
          · rintro ⟨⟩
          · next hfree =>
              split
              · intro h
                have heffect := checkMonth_effect env k hfree indexOk
                rw [Option.some.inj h] at heffect
                exact heffect
              · rintro ⟨⟩
                exact ⟨.counting ym .failed false, rfl, rfl, .keeps rfl rfl,
                  .keeps rfl rfl rfl (Or.inl rfl),
                  fun _ _ _ _ _ => ⟨trivial, fun _ he => Or.inl he⟩, rfl, rfl⟩
      | _ => rintro ⟨⟩
  | fetching ym attempt retriesUsed asked =>
      cases move with
      | noAnswer =>
          rintro ⟨⟩
          exact ⟨_, rfl, rfl, .keeps rfl (held_afterAttempt ym attempt _),
            .keeps rfl rfl rfl (Or.inl (wrote_afterAttempt ym attempt _)),
            fun base startedAt _ _ _ => ⟨workerKnows_afterAttempt base s startedAt ym attempt _,
              fun _ he => Or.inl he⟩, rfl, rfl⟩
      | answer candles marked written gate =>
          rw [resumeWorker]
          split
          · next hall =>
              intro h
              have heffect := afterFetch_effect s run k attempt retriesUsed hall marked written gate
              rw [Option.some.inj h] at heffect
              exact heffect
          · rintro ⟨⟩
      | _ => rintro ⟨⟩
  | sleeping ym attempt retriesUsed =>
      cases move with
      | go marked =>
          rintro ⟨⟩
          exact ⟨.fetching ym attempt retriesUsed s.clock, rfl, rfl, .keeps rfl rfl,
            .keeps rfl rfl rfl (Or.inl rfl), fun _ _ hs hstart _ => ⟨⟨hstart, le_rfl,
              fun t ht => (hs.written ym t ht).1, fun t ht => (hs.emptied ym t ht).1⟩,
              fun _ he => Or.inl he⟩, rfl, rfl⟩
      | _ => rintro ⟨⟩
  | suspecting ym retriesUsed candles =>
      cases move with
      | go marked =>
          rw [resumeWorker]
          split
          · rintro ⟨⟩
          · obtain ⟨jobs, hjobs, -⟩ := updateJob_spec s run.jobId fun job => { job with
              suspect := job.suspect + 1, suspectMonths := job.suspectMonths ++ [monthKey ym] }
            rw [hjobs]
            rintro ⟨⟩
            exact ⟨.retrying ym retriesUsed (some candles), rfl, rfl, .keeps rfl rfl,
              .keeps rfl rfl rfl (Or.inr rfl),
              fun _ _ _ _ hw => ⟨hw, fun _ he => Or.inl he⟩, rfl, rfl⟩
      | _ => rintro ⟨⟩
  | retrying ym retriesUsed candles =>
      cases move with
      | go marked =>
          rw [resumeWorker]
          split
          · rintro ⟨⟩
          · obtain ⟨jobs, hjobs, -⟩ := updateJob_spec s run.jobId fun job => { job with
              retries := job.retries + retriesUsed }
            rw [hjobs]
            cases candles with
            | none =>
                rintro ⟨⟩
                exact ⟨.counting ym .failed true, rfl, rfl, .keeps rfl rfl,
                  .keeps rfl rfl rfl (Or.inl rfl),
                  fun _ _ _ _ _ => ⟨trivial, fun _ he => Or.inl he⟩, rfl, rfl⟩
            | some candles =>
                rintro ⟨⟩
                refine ⟨.counting ym .done true, rfl, rfl, .keeps rfl rfl, ?_,
                  fun _ _ _ _ hw => ⟨hw, fun _ he => Or.inl he⟩, rfl, rfl⟩
                cases marked with
                | false => exact .keeps rfl rfl rfl (Or.inl rfl)
                | true =>
                    obtain hkeeps | ⟨entry, hdone, hmarks⟩ := markWritten_cases s.disk ym candles
                    · exact .keeps hkeeps rfl rfl (Or.inl rfl)
                    · exact .marks ym entry rfl hdone hmarks rfl rfl rfl
      | _ => rintro ⟨⟩
  | counting ym outcome locked =>
      cases move with
      | go marked =>
          rw [resumeWorker]
          split
          · rintro ⟨⟩
          · obtain ⟨jobs, hjobs, -⟩ := updateJob_spec s run.jobId fun job => job.count ym outcome
            rw [hjobs]
            rintro ⟨⟩
            have hcounted : ∀ base startedAt, Known base s startedAt ym outcome →
                ∀ e ∈ run.counted ++ [(ym, outcome)],
                  e ∈ run.counted ∨ Known base s startedAt e.1 e.2 := by
              intro base startedAt hknown e he
              rcases List.mem_append.1 he with hold | hnew
              · exact Or.inl hold
              · rw [List.mem_singleton.1 hnew]
                exact Or.inr hknown
            cases locked with
            | false =>
                exact ⟨.taking, rfl, rfl, .keeps rfl rfl, .keeps rfl rfl rfl (Or.inl rfl),
                  fun base startedAt _ _ hw => ⟨trivial, hcounted base startedAt hw⟩, rfl, rfl⟩
            | true =>
                exact ⟨.taking, rfl, rfl, .gives ym rfl rfl rfl, .keeps rfl rfl rfl (Or.inl rfl),
                  fun base startedAt _ _ hw => ⟨trivial, hcounted base startedAt hw⟩, rfl, rfl⟩
      | _ => rintro ⟨⟩
  | gone => cases move <;> rintro ⟨⟩

/-! ### What a step keeps -/

/-- What a step keeps of the notes and the locks, except those of the month that it is about; the
notes of that month only become later. -/
structure Later (s s' : SyncShared) (held : Option (ℕ × ℕ)) : Prop where
  clock : s.clock ≤ s'.clock
  written : ∀ ym t, s.written.get? ym = some t → ∃ t', t ≤ t' ∧ s'.written.get? ym = some t'
  emptied : ∀ ym t, s.emptied.get? ym = some t → ∃ t', t ≤ t' ∧ s'.emptied.get? ym = some t'
  writtenElse : ∀ ym, held ≠ some ym → s'.written.get? ym = s.written.get? ym
  emptiedElse : ∀ ym, held ≠ some ym → s'.emptied.get? ym = s.emptied.get? ym
  locks : ∀ ym, held ≠ some ym → ("1m", ym) ∈ s.monthLocks → ("1m", ym) ∈ s'.monthLocks

/-- A later note of a month replaces an earlier one. -/
theorem later_set {notes : Dict (ℕ × ℕ) ℕ} {asked : ℕ}
    (h : ∀ t, notes.get? ym = some t → t ≤ asked) :
    (∀ ym' t, notes.get? ym' = some t → ∃ t', t ≤ t' ∧ (notes.set ym asked).get? ym' = some t') ∧
      ∀ ym', some ym ≠ some ym' → (notes.set ym asked).get? ym' = notes.get? ym' := by
  constructor
  · intro ym' t ht
    by_cases heq : ym' = ym
    · subst heq
      exact ⟨asked, h t ht, Dict.get?_set_self _ _ _⟩
    · exact ⟨t, le_rfl, by rw [Dict.get?_set_of_ne _ _ heq, ht]⟩
  · exact fun ym' hne => Dict.get?_set_of_ne _ _ fun heq => hne (congrArg some heq.symm)

/-- The steps of a worker keep these. -/
theorem WorkerEffect.later (h : WorkerEffect env s s' run run' k w w')
    (hw : WorkerKnows base s startedAt w) : Later s s' w.held := by
  have hlocks : ∀ ym, w.held ≠ some ym → ("1m", ym) ∈ s.monthLocks →
      ("1m", ym) ∈ s'.monthLocks := by
    intro ym hne hmem
    cases h.locks with
    | keeps same _ => rwa [same]
    | takes ym' _ _ _ hlocks =>
        rw [hlocks]
        exact List.mem_cons_of_mem _ hmem
    | gives ym' hbefore _ hlocks =>
        rw [hlocks]
        refine (List.mem_erase_of_ne fun heq => hne ?_).2 hmem
        rw [hbefore, (Prod.mk.inj heq).2]
  have hsame : ∀ {notes notes' : Dict (ℕ × ℕ) ℕ}, notes' = notes → ∀ ym t,
      notes.get? ym = some t → ∃ t', t ≤ t' ∧ notes'.get? ym = some t' :=
    fun heq ym t ht => ⟨t, le_rfl, heq ▸ ht⟩
  cases h.disk with
  | keeps _ hwritten hemptied _ =>
      exact ⟨h.clock.ge, hsame hwritten, hsame hemptied, fun ym _ => by rw [hwritten],
        fun ym _ => by rw [hemptied], hlocks⟩
  | empties ym attempt retriesUsed asked hfrom _ _ hwritten hemptied _ =>
      subst hfrom
      obtain ⟨hlater, helse⟩ := later_set hw.2.2.2
      rw [← hemptied] at hlater helse
      exact ⟨h.clock.ge, hsame hwritten, hlater, fun ym _ => by rw [hwritten], helse, hlocks⟩
  | writes ym attempt retriesUsed asked candles hfrom _ _ _ hwritten hemptied _ =>
      subst hfrom
      obtain ⟨hlater, helse⟩ := later_set hw.2.2.1
      rw [← hwritten] at hlater helse
      exact ⟨h.clock.ge, hlater, hsame hemptied, helse, fun ym _ => by rw [hemptied], hlocks⟩
  | marks ym _ _ _ _ hwritten hemptied _ =>
      exact ⟨h.clock.ge, hsame hwritten, hsame hemptied, fun ym _ => by rw [hwritten],
        fun ym _ => by rw [hemptied], hlocks⟩

/-- A step that is about no month. -/
theorem later_of_eq (hclock : s.clock ≤ s'.clock) (hwritten : s'.written = s.written)
    (hemptied : s'.emptied = s.emptied) (hlocks : s'.monthLocks = s.monthLocks) :
    Later s s' none := by
  refine ⟨hclock, ?_, ?_, ?_, ?_, ?_⟩
  · exact fun ym t ht => ⟨t, le_rfl, hwritten ▸ ht⟩
  · exact fun ym t ht => ⟨t, le_rfl, hemptied ▸ ht⟩
  · exact fun ym _ => by rw [hwritten]
  · exact fun ym _ => by rw [hemptied]
  · exact fun ym _ hmem => hlocks ▸ hmem

variable {held : Option (ℕ × ℕ)} {outcome : MonthOutcome}

theorem Present.later (h : Present base s ym) (hl : Later s s' held) : Present base s' ym := by
  obtain ⟨t, ht⟩ | ⟨t, ht⟩ | hbase := h
  · obtain ⟨t', -, ht'⟩ := hl.written ym t ht
    exact Or.inl ⟨t', ht'⟩
  · obtain ⟨t', -, ht'⟩ := hl.emptied ym t ht
    exact Or.inr (Or.inl ⟨t', ht'⟩)
  · exact Or.inr (Or.inr hbase)

theorem Known.later (h : Known base s startedAt ym outcome) (hl : Later s s' held) :
    Known base s' startedAt ym outcome := by
  cases outcome with
  | done =>
      obtain ⟨t, hle, ht⟩ := h
      obtain ⟨t', hle', ht'⟩ := hl.written ym t ht
      exact ⟨t', hle.trans hle', ht'⟩
  | empty =>
      obtain ⟨t, hle, ht⟩ := h
      obtain ⟨t', hle', ht'⟩ := hl.emptied ym t ht
      exact ⟨t', hle.trans hle', ht'⟩
  | skipped => exact Present.later h hl
  | failed => trivial

/-- A worker with another month knows what it knew. -/
theorem WorkerKnows.later (h : WorkerKnows base s startedAt w) (hl : Later s s' held)
    (hother : ∀ ym, held = some ym → w.held ≠ some ym) : WorkerKnows base s' startedAt w := by
  cases w with
  | fetching ym attempt retriesUsed asked =>
      have hne : held ≠ some ym := fun heq => hother ym heq rfl
      obtain ⟨hstart, hclock, hwritten, hemptied⟩ := h
      refine ⟨hstart, hclock.trans hl.clock, ?_, ?_⟩
      · rwa [hl.writtenElse ym hne]
      · rwa [hl.emptiedElse ym hne]
  | suspecting ym _ _ =>
      have hknown : Known base s startedAt ym .done := h
      exact hknown.later hl
  | retrying ym _ candles =>
      cases candles with
      | none => trivial
      | some candles =>
          have hknown : Known base s startedAt ym .done := h
          exact hknown.later hl
  | counting ym outcome _ => exact Known.later h hl
  | _ => trivial

/-- A job with other months knows what it knew. -/
theorem RunKnows.later (h : RunKnows base s startedAt run) (hl : Later s s' held)
    (hother : ∀ ym, held = some ym → ym ∉ run.held) : RunKnows base s' startedAt run := by
  have hmem : ∀ w ∈ run.workers, ∀ ym, w.held = some ym → ym ∈ run.held := fun w hw ym hheld =>
    List.mem_filterMap.2 ⟨w, hw, hheld⟩
  refine ⟨h.tf, h.started.trans hl.clock, ?_, ?_, ?_, ?_⟩
  · exact fun ym hym => hl.locks ym (fun heq => hother ym heq hym) (h.locks ym hym)
  · exact fun w hw => (h.workers w hw).later hl fun ym heq hheld =>
      hother ym heq (hmem w hw ym hheld)
  · exact fun e he => (h.counted e he).later hl
  · exact fun ym hym => (h.known ym hym).later hl

/-- Writing a file, and noting when it was asked for. -/
theorem Grounded.write {asked : ℕ} {candles : List OhlcvRow} (hs : Grounded env base s)
    (hclock : s.clock ≤ s'.clock) (hasked : asked ≤ s.clock) (hrows : candles ≠ [])
    (hall : ∀ c ∈ env.offered asked ym, c ∈ candles)
    (hdisk : s'.disk = { s.disk with files := s.disk.files.set ym (some candles) })
    (hwritten : s'.written = s.written.set ym asked) (hemptied : s'.emptied = s.emptied) :
    Grounded env base s' := by
  refine ⟨fun ym' t ht => ?_, fun ym' t ht => ?_, fun ym' hnone => ?_, fun ym' hempty => ?_⟩
  · rw [hwritten, Dict.get?_set] at ht
    rw [hdisk]
    dsimp only
    rw [Dict.get?_set]
    split at ht
    · next heq =>
        obtain rfl := Option.some.inj ht
        exact ⟨hasked.trans hclock, candles, hrows, if_pos heq, heq ▸ hall⟩
    · next hne =>
        obtain ⟨hle, rows, hne', hfile, hoffered⟩ := hs.written ym' t ht
        exact ⟨hle.trans hclock, rows, hne', (if_neg hne).trans hfile, hoffered⟩
  · rw [hemptied] at ht
    obtain ⟨hle, hnothing⟩ := hs.emptied ym' t ht
    exact ⟨hle.trans hclock, hnothing⟩
  · rw [hwritten, Dict.get?_set] at hnone
    split at hnone
    · cases hnone
    · next hne =>
        rw [hdisk, ← hs.files ym' hnone]
        exact Dict.get?_set_of_ne _ _ hne
  · have hstatus : s'.disk.status ym' = s.disk.status ym' := by
      rw [hdisk]
      rfl
    rw [hstatus] at hempty
    rw [hemptied]
    exact hs.marks ym' hempty

/-- The files and notes of writing stay, and the marks of empty months come from the notes. -/
theorem Grounded.of_files (hs : Grounded env base s) (hclock : s.clock ≤ s'.clock)
    (hfiles : s'.disk.files = s.disk.files) (hwritten : s'.written = s.written)
    (hemptied : ∀ ym t, s'.emptied.get? ym = some t → t ≤ s'.clock ∧ env.offered t ym = [])
    (hmarks : ∀ ym, s'.disk.status ym = some .empty →
      (∃ t, s'.emptied.get? ym = some t) ∨ EmptyIn base ym) : Grounded env base s' := by
  refine ⟨fun ym' t ht => ?_, hemptied, fun ym' hnone => ?_, hmarks⟩
  · rw [hwritten] at ht
    obtain ⟨hle, hfile⟩ := hs.written ym' t ht
    rw [hfiles]
    exact ⟨hle.trans hclock, hfile⟩
  · rw [hfiles]
    exact hs.files ym' (hwritten ▸ hnone)

/-- The index is rebuilt, or is not, while time goes on. -/
theorem Grounded.rebuild (hs : Grounded env base s) (hclock : s.clock ≤ s'.clock)
    (hdisk : s'.disk = s.disk ∨ s'.disk = (s.disk.rebuild "1m").store)
    (hwritten : s'.written = s.written) (hemptied : s'.emptied = s.emptied) :
    Grounded env base s' := by
  have hfiles : s'.disk.files = s.disk.files := by
    obtain hdisk | hdisk := hdisk
    · rw [hdisk]
    · rw [hdisk, HistoricalParquet.files_rebuild]
  refine hs.of_files hclock hfiles hwritten (fun ym t ht => ?_) fun ym hempty => ?_
  · rw [hemptied] at ht
    obtain ⟨hle, hnothing⟩ := hs.emptied ym t ht
    exact ⟨hle.trans hclock, hnothing⟩
  · obtain hdisk | hdisk := hdisk
    · rw [hdisk] at hempty
      rw [hemptied]
      exact hs.marks ym hempty
    · rw [hdisk, HistoricalParquet.status_rebuild] at hempty
      cases hwritten' : s.written.get? ym with
      | none =>
          rw [hs.files ym hwritten'] at hempty
          exact Or.inr (Or.inr hempty)
      | some t =>
          obtain ⟨-, rows, hrows, hfile, -⟩ := hs.written ym t hwritten'
          rw [hfile] at hempty
          cases rows with
          | nil => exact absurd rfl hrows
          | cons row rows => cases hempty

/-- The steps of a worker keep the disk grounded. -/
theorem WorkerEffect.grounded (h : WorkerEffect env s s' run run' k w w')
    (hs : Grounded env base s) (hw : WorkerKnows base s startedAt w) : Grounded env base s' := by
  have hclock := h.clock.ge
  cases h.disk with
  | keeps hdisk hwritten hemptied _ => exact hs.rebuild hclock (Or.inl hdisk) hwritten hemptied
  | empties ym attempt retriesUsed asked hfrom hnothing hdisk hwritten hemptied _ =>
      subst hfrom
      have hfiles : s'.disk.files = s.disk.files := by
        obtain hdisk | hdisk := hdisk
        · rw [hdisk]
        · rw [hdisk]
          rfl
      refine hs.of_files hclock hfiles hwritten (fun ym' t ht => ?_) fun ym' hempty => ?_
      · rw [hemptied, Dict.get?_set] at ht
        split at ht
        · next heq =>
            obtain rfl := Option.some.inj ht
            exact ⟨hw.2.1.trans hclock, heq ▸ hnothing⟩
        · obtain ⟨hle, hnothing'⟩ := hs.emptied ym' t ht
          exact ⟨hle.trans hclock, hnothing'⟩
      · rw [hemptied, Dict.get?_set]
        split
        · exact Or.inl ⟨asked, rfl⟩
        · next hne =>
            refine hs.marks ym' ?_
            obtain hdisk | hdisk := hdisk
            · rwa [hdisk] at hempty
            · rwa [hdisk, HistoricalParquet.markEmpty, HistoricalParquet.status_mark,
                if_neg hne] at hempty
  | writes ym attempt retriesUsed asked candles hfrom hrows hall hdisk hwritten hemptied _ =>
      subst hfrom
      exact hs.write hclock hw.2.1 hrows hall hdisk hwritten hemptied
  | marks ym entry hfrom hdone hdisk hwritten hemptied _ =>
      have hfiles : s'.disk.files = s.disk.files := by
        rw [hdisk]
        rfl
      refine hs.of_files hclock hfiles hwritten (fun ym' t ht => ?_) fun ym' hempty => ?_
      · rw [hemptied] at ht
        obtain ⟨hle, hnothing⟩ := hs.emptied ym' t ht
        exact ⟨hle.trans hclock, hnothing⟩
      · rw [hdisk, HistoricalParquet.status_mark] at hempty
        rw [hemptied]
        split at hempty
        · rw [hdone] at hempty
          cases hempty
        · exact hs.marks ym' hempty

/-! ### Jobs that know their months -/

/-- The jobs keep the times at which they were started. -/
def KeepsStarts (s s' : SyncShared) : Prop :=
  ∀ jobId job, s.jobs.get? jobId = some job →
    ∃ job', s'.jobs.get? jobId = some job' ∧ job'.startedAt = job.startedAt

theorem keepsStarts_of_eq (h : s'.jobs = s.jobs) : KeepsStarts s s' :=
  fun _ job hjob => ⟨job, h ▸ hjob, rfl⟩

theorem Updates.keepsStarts {jobId : String} {f : SyncJob → SyncJob} (h : Updates s s' jobId f)
    (hf : KeepsRange f) : KeepsStarts s s' := by
  intro jobId' job hjob
  by_cases heq : jobId' = jobId
  · subst heq
    exact ⟨f job, by rw [h.get?_self, hjob]; rfl, hf.startedAt job⟩
  · exact ⟨job, by rw [h.get?_of_ne heq, hjob], rfl⟩

/-- A job knows of its months what there is to know since its start. -/
def JobKnows (base : HistoricalParquet) (s : SyncShared) (run : SyncRun) : Prop :=
  ∃ job, s.jobs.get? run.jobId = some job ∧ RunKnows base s job.startedAt run

/-- What a request or a job knows. -/
def TaskKnows (base : HistoricalParquet) (s : SyncShared) : SyncTask → Prop
  | .starting tf _ _ => tf = "1m"
  | .rebuilding tf _ _ => tf = "1m"
  | .scheduled run => JobKnows base s run
  | .running run => JobKnows base s run
  | .finishing run => JobKnows base s run
  | .finished run => JobKnows base s run
  | _ => True

/-- Two tasks do not have the lock of one month. -/
def HeldApart (t u : SyncTask) : Prop :=
  ∀ run run', t.run? = some run → u.run? = some run' → ∀ ym ∈ run.held, ym ∉ run'.held

variable {t t' u : SyncTask}

theorem TaskKnows.job (h : TaskKnows base s t) (hrun : t.run? = some run) :
    JobKnows base s run := by
  cases t with
  | scheduled _ => cases hrun; exact h
  | running _ => cases hrun; exact h
  | finishing _ => cases hrun; exact h
  | finished _ => cases hrun; exact h
  | _ => cases hrun

theorem JobKnows.later (h : JobKnows base s run) (hl : Later s s' held) (hjobs : KeepsStarts s s')
    (hother : ∀ ym, held = some ym → ym ∉ run.held) : JobKnows base s' run := by
  obtain ⟨job, hjob, hknows⟩ := h
  obtain ⟨job', hjob', hstarted⟩ := hjobs run.jobId job hjob
  exact ⟨job', hjob', hstarted ▸ hknows.later hl hother⟩

theorem TaskKnows.later (h : TaskKnows base s u) (hl : Later s s' held) (hjobs : KeepsStarts s s')
    (hother : ∀ run ym, u.run? = some run → held = some ym → ym ∉ run.held) :
    TaskKnows base s' u := by
  cases u with
  | scheduled run => exact JobKnows.later h hl hjobs fun ym => hother run ym rfl
  | running run => exact JobKnows.later h hl hjobs fun ym => hother run ym rfl
  | finishing run => exact JobKnows.later h hl hjobs fun ym => hother run ym rfl
  | finished run => exact JobKnows.later h hl hjobs fun ym => hother run ym rfl
  | _ => exact h

/-- What a step of a task keeps. -/
structure StepKnows (env : SyncEnv) (base : HistoricalParquet) (s s' : SyncShared)
    (t t' : SyncTask) : Prop where
  grounded : Grounded env base s'
  task : TaskKnows base s' t'
  others : ∀ u, HeldApart t u → TaskKnows base s u → TaskKnows base s' u ∧ HeldApart t' u

/-- A step that is about no month, and takes no lock of one. -/
theorem stepKnows_of_none (hgrounded : Grounded env base s') (htask : TaskKnows base s' t')
    (hl : Later s s' none) (hjobs : KeepsStarts s s')
    (hheld : ∀ run', t'.run? = some run' → run'.held = [] ∨ t.run? = some run') :
    StepKnows env base s s' t t' := by
  refine ⟨hgrounded, htask, fun u hapart hu => ⟨hu.later hl hjobs fun _ _ _ h => (by cases h),
    ?_⟩⟩
  intro run' v hrun' hv ym hym
  obtain hnil | hrun := hheld run' hrun'
  · rw [hnil] at hym
    cases hym
  · exact hapart run' v hrun hv ym hym

/-- The workers of a job after a step of one of them. -/
theorem mem_workers_set (hw : run.workers[k]? = some w) {v : WorkerAt}
    (hv : v ∈ run.workers.set k w') (hnodup : run.taken.Nodup) :
    v = w' ∨ v ∈ run.workers ∧ ∀ ym, w.held = some ym → v.held ≠ some ym := by
  obtain ⟨hk, rfl⟩ := List.getElem?_eq_some_iff.1 hw
  rcases List.mem_cons.1 ((List.set_perm_cons_eraseIdx hk w').mem_iff.1 hv) with heq | hrest
  · exact Or.inl heq
  · refine Or.inr ⟨List.mem_of_mem_eraseIdx hrest, fun ym hheld hheld' => ?_⟩
    have hperm := (List.getElem_cons_eraseIdx_perm hk).filterMap WorkerAt.month?
    rw [List.filterMap_cons_some (WorkerAt.month?_of_held hheld)] at hperm
    refine (List.nodup_cons.1 (hperm.nodup_iff.2 hnodup)).1 ?_
    exact List.mem_filterMap.2 ⟨v, hrest, WorkerAt.month?_of_held hheld'⟩

/-- After a step of a worker the job knows its months. -/
theorem RunKnows.worker (h : RunKnows base s startedAt run) (hs : Grounded env base s)
    (heffect : WorkerEffect env s s' run run' k w w')
    (hw : run.workers[k]? = some w) (hnodup : run.taken.Nodup) :
    RunKnows base s' startedAt run' := by
  have hwknows := h.workers w (List.mem_of_getElem? hw)
  have hl := heffect.later hwknows
  have hheld : ∀ v ∈ run.workers, ∀ ym, v.held = some ym → ym ∈ run.held := fun v hv ym hym =>
    List.mem_filterMap.2 ⟨v, hv, hym⟩
  refine ⟨heffect.tf.trans h.tf, h.started.trans hl.clock, ?_, ?_, ?_, ?_⟩
  · intro ym hym
    obtain ⟨v, hv, hvheld⟩ := List.mem_filterMap.1 hym
    rw [heffect.workers] at hv
    obtain rfl | ⟨hold, hne⟩ := mem_workers_set hw hv hnodup
    · cases heffect.locks with
      | keeps same hsame =>
          rw [same]
          exact h.locks ym (hheld w (List.mem_of_getElem? hw) ym (hsame ▸ hvheld))
      | takes ym' _ _ hafter hlocks =>
          rw [hafter] at hvheld
          rw [hlocks, ← Option.some.inj hvheld, h.tf]
          exact List.mem_cons_self
      | gives _ _ hafter _ =>
          rw [hafter] at hvheld
          cases hvheld
    · exact hl.locks ym (fun heq => hne ym heq hvheld) (h.locks ym (hheld v hold ym hvheld))
  · intro v hv
    rw [heffect.workers] at hv
    obtain rfl | ⟨hold, hne⟩ := mem_workers_set hw hv hnodup
    · exact (heffect.knows base startedAt hs h.started hwknows).1
    · exact (h.workers v hold).later hl hne
  · intro e he
    obtain hold | hnew := (heffect.knows base startedAt hs h.started hwknows).2 e he
    · exact (h.counted e hold).later hl
    · exact hnew
  · rw [heffect.known]
    exact fun ym hym => (h.known ym hym).later hl

/-- The locks that a job has after a step of a worker were its own, or were free. -/
theorem WorkerEffect.held_before (heffect : WorkerEffect env s s' run run' k w w')
    (htf : run.tf = "1m") (hw : run.workers[k]? = some w) (hnodup : run.taken.Nodup)
    (hym : ym ∈ run'.held) : ym ∈ run.held ∨ ("1m", ym) ∉ s.monthLocks := by
  obtain ⟨v, hv, hvheld⟩ := List.mem_filterMap.1 hym
  rw [heffect.workers] at hv
  obtain rfl | ⟨hold, -⟩ := mem_workers_set hw hv hnodup
  · cases heffect.locks with
    | keeps _ hsame =>
        exact Or.inl (List.mem_filterMap.2 ⟨w, List.mem_of_getElem? hw, hsame ▸ hvheld⟩)
    | takes ym' hfree _ hafter _ =>
        rw [hafter] at hvheld
        rw [← Option.some.inj hvheld, ← htf]
        exact Or.inr hfree
    | gives _ _ hafter _ =>
        rw [hafter] at hvheld
        cases hvheld
  · exact Or.inl (List.mem_filterMap.2 ⟨v, hold, hvheld⟩)

/-- A step of a worker. -/
theorem stepKnows_worker {move : WorkerMove} (hs : Grounded env base s)
    (ht : TaskKnows base s (.running run)) (hnodup : run.taken.Nodup)
    (hw : run.workers[k]? = some w) (h : resumeWorker env s run k w move = some (s', run')) :
    StepKnows env base s s' (.running run) (.running run') := by
  obtain ⟨job, hjob, hknows⟩ := ht
  have hwknows := hknows.workers w (List.mem_of_getElem? hw)
  obtain ⟨w', heffect⟩ := resumeWorker_effect h
  obtain ⟨w'', f, hframe, hstep⟩ := resumeWorker_spec h
  have hjobs := hframe.shared.keepsStarts hstep.keepsRange
  have hl := heffect.later hwknows
  refine ⟨heffect.grounded hs hwknows, ?_, fun u hapart hu => ⟨hu.later hl hjobs ?_, ?_⟩⟩
  · obtain ⟨job', hjob', hstarted⟩ := hjobs run.jobId job hjob
    refine ⟨job', by rw [hframe.jobId, hjob'], ?_⟩
    rw [hstarted]
    exact hknows.worker hs heffect hw hnodup
  · intro v ym hv hheld hmem
    have hmem' : ym ∈ run.held :=
      List.mem_filterMap.2 ⟨w, List.mem_of_getElem? hw, hheld⟩
    exact hapart run v rfl hv ym hmem' hmem
  · intro _ v hrun' hv ym hym hmem
    cases hrun'
    obtain hold | hfree := heffect.held_before hknows.tf hw hnodup hym
    · exact hapart run v rfl hv ym hold hmem
    · obtain ⟨_, _, hvknows⟩ := hu.job hv
      exact hfree (hvknows.locks ym hmem)

theorem Booked.nodup_taken {P : SyncJob → Prop} (h : Booked env s run P) : run.taken.Nodup := by
  obtain ⟨job, range, -, hrange, -, hperm, -⟩ := h
  have hnodup := hperm.nodup_iff.2 (nodup_rangeOf hrange)
  exact (List.nodup_append.1 (List.nodup_append.1 hnodup).2.1).1

/-- A job is started. -/
theorem stepKnows_startJob {tf fromDate toDate jobId : String} (hs : Grounded env base s)
    (htf : tf = "1m") (h : startJob env s tf fromDate toDate jobId = some (s', t')) :
    StepKnows env base s s' (.rebuilding tf fromDate toDate) t' := by
  subst htf
  revert h
  rw [startJob]
  dsimp only
  cases hfrom : env.fromisoformat fromDate with
  | none =>
      dsimp only
      rintro ⟨⟩
      exact stepKnows_of_none (hs.rebuild le_rfl (Or.inr rfl) rfl rfl) trivial
        (later_of_eq le_rfl rfl rfl rfl) (keepsStarts_of_eq rfl) fun _ h => by cases h
  | some from_ =>
      cases hto : env.fromisoformat toDate with
      | none =>
          dsimp only
          rintro ⟨⟩
          exact stepKnows_of_none (hs.rebuild le_rfl (Or.inr rfl) rfl rfl) trivial
            (later_of_eq le_rfl rfl rfl rfl) (keepsStarts_of_eq rfl) fun _ h => by cases h
      | some to_ =>
          dsimp only
          split
          · rintro ⟨⟩
          · next hnew =>
              intro h
              obtain ⟨rfl, rfl⟩ := Prod.mk.inj (Option.some.inj h)
              refine stepKnows_of_none (hs.rebuild le_rfl (Or.inr rfl) rfl rfl)
                ⟨_, Dict.get?_set_self _ _ _, rfl, le_rfl, fun _ hym => (by cases hym),
                  fun _ hv => (by cases hv), fun _ he => (by cases he), fun ym hym => ?_⟩
                (later_of_eq le_rfl rfl rfl rfl) (fun jobId' job hjob => ?_) fun _ hrun => ?_
              · have hmem := of_decide_eq_true (List.mem_filter.1 hym).2
                exact hs.present_of_hasMonth (HistoricalParquet.hasMonth_of_mem_doneMonths hmem)
              · refine ⟨job, ?_, rfl⟩
                rw [Dict.get?_set_of_ne _ _ fun heq => ?_, hjob]
                rw [Dict.contains, ← heq, hjob] at hnew
                exact hnew rfl
              · cases hrun
                exact Or.inl rfl

/-- A job runs for the first time. -/
theorem stepKnows_runJob (hs : Grounded env base s) (ht : TaskKnows base s (.scheduled run)) :
    StepKnows env base s (runJob env s run).1 (.scheduled run) (runJob env s run).2 := by
  rw [runJob]
  split
  · have hkeeps := keepsRange_status (fun _ => .done) fun _ h => by cases h
    obtain ⟨jobs, hjobs, hget⟩ := updateJob_spec s run.jobId fun job =>
      { job with status := .done }
    have hupdates : Updates s { s with jobs := jobs } run.jobId fun job =>
      { job with status := .done } := ⟨hget, rfl, rfl⟩
    have hstarts := hupdates.keepsStarts hkeeps
    rw [hjobs]
    have hl : Later s { s with jobs := jobs } none := later_of_eq le_rfl rfl rfl rfl
    exact stepKnows_of_none (hs.rebuild le_rfl (Or.inl rfl) rfl rfl)
      (JobKnows.later ht hl hstarts fun _ h => by cases h) hl hstarts fun _ hrun => Or.inr hrun
  · obtain ⟨job, hjob, hknows⟩ := ht
    have hheld : SyncRun.held { run with
        workers := List.replicate (min env.workers run.queue.length).toNat .taking } = [] :=
      List.filterMap_replicate_of_none rfl
    refine stepKnows_of_none hs ⟨job, hjob, hknows.tf, hknows.started, ?_, ?_, hknows.counted,
      hknows.known⟩ (later_of_eq le_rfl rfl rfl rfl) (keepsStarts_of_eq rfl) fun run' hrun => ?_
    · intro ym hym
      rw [hheld] at hym
      cases hym
    · intro w hw
      rw [List.eq_of_mem_replicate hw]
      trivial
    · cases hrun
      exact Or.inl hheld

/-- A job is over. -/
theorem stepKnows_finishJob (hs : Grounded env base s) (ht : TaskKnows base s (.finishing run))
    (ok : Bool) :
    StepKnows env base s (finishJob s run ok).1 (.finishing run) (finishJob s run ok).2 := by
  obtain ⟨job, hjob, hknows⟩ := ht
  have hkeeps := keepsRange_status (fun job => if job.failed = 0 then .done else .failed)
    fun job => by split <;> rintro ⟨⟩
  obtain ⟨jobs, hfinish, hget⟩ := finishJob_spec s run ok
  rw [hknows.tf] at hfinish
  have hupdates : Updates s { s with
      jobs := jobs
      disk := if ok = true then (s.disk.rebuild "1m").store else s.disk } run.jobId fun job =>
    { job with status := if job.failed = 0 then .done else .failed } := ⟨hget, rfl, rfl⟩
  have hstarts := hupdates.keepsStarts hkeeps
  rw [hfinish]
  have hdisk : (if ok = true then (s.disk.rebuild "1m").store else s.disk) = s.disk ∨
      (if ok = true then (s.disk.rebuild "1m").store else s.disk) =
        (s.disk.rebuild "1m").store := by
    cases ok with
    | true => exact Or.inr rfl
    | false => exact Or.inl rfl
  refine stepKnows_of_none (hs.rebuild le_rfl hdisk rfl rfl)
    (JobKnows.later ⟨job, hjob, hknows⟩ (later_of_eq le_rfl rfl rfl rfl) hstarts
      fun _ h => by cases h) (later_of_eq le_rfl rfl rfl rfl) hstarts fun _ hrun => Or.inr hrun

/-- A step of a request or a job. -/
theorem stepKnows_resumeAt {move : SyncMove} (hs : Grounded env base s)
    (ht : TaskKnows base s t) (hinv : TaskInv env s t)
    (h : resumeAt env s t move = some (s', t')) : StepKnows env base s s' t t' := by
  revert h
  cases t with
  | starting tf fromDate toDate =>
      cases move with
      | acquire =>
          rw [resumeAt]
          split
          · rintro ⟨⟩
          · intro h
            have hrebuilding : StepKnows env base s { s with locked := true }
                (.starting tf fromDate toDate) (.rebuilding tf fromDate toDate) :=
              stepKnows_of_none (hs.rebuild le_rfl (Or.inl rfl) rfl rfl) ht
                (later_of_eq le_rfl rfl rfl rfl) (keepsStarts_of_eq rfl) fun _ h => by cases h
            replace h := Option.some.inj h
            rw [acquire] at h
            split at h
            · cases h
              exact hrebuilding
            · split at h
              · cases h
                exact stepKnows_of_none hs trivial (later_of_eq le_rfl rfl rfl rfl)
                  (keepsStarts_of_eq rfl) fun _ h => by cases h
              · cases h
                exact hrebuilding
      | _ => rintro ⟨⟩
  | rebuilding tf fromDate toDate =>
      cases move with
      | rebuilt ok jobId =>
          cases ok with
          | false =>
              rintro ⟨⟩
              exact stepKnows_of_none (hs.rebuild le_rfl (Or.inl rfl) rfl rfl) trivial
                (later_of_eq le_rfl rfl rfl rfl) (keepsStarts_of_eq rfl) fun _ h => by cases h
          | true => exact stepKnows_startJob hs ht
      | _ => rintro ⟨⟩
  | scheduled run =>
      cases move with
      | run =>
          intro h
          have hknows := stepKnows_runJob hs ht
          rw [Option.some.inj h] at hknows
          exact hknows
      | _ => rintro ⟨⟩
  | running run =>
      cases move with
      | worker k move =>
          rw [resumeAt]
          cases hw : run.workers[k]? with
          | none => rintro ⟨⟩
          | some w =>
              dsimp only
              intro h
              obtain ⟨⟨s'', run'⟩, hresume, heq⟩ := Option.map_eq_some_iff.1 h
              obtain ⟨rfl, rfl⟩ := Prod.mk.inj heq
              exact stepKnows_worker hs ht hinv.1.nodup_taken hw hresume
      | gathered =>
          rw [resumeAt]
          split
          · rintro ⟨⟩
            exact stepKnows_of_none hs ht (later_of_eq le_rfl rfl rfl rfl) (keepsStarts_of_eq rfl)
              fun _ hrun => Or.inr hrun
          · rintro ⟨⟩
      | _ => rintro ⟨⟩
  | finishing run =>
      cases move with
      | rebuilt ok jobId =>
          intro h
          have hknows := stepKnows_finishJob hs ht ok
          rw [Option.some.inj h] at hknows
          exact hknows
      | _ => rintro ⟨⟩
  | rebuildCall tf =>
      cases move with
      | rebuilt ok jobId =>
          rintro ⟨⟩
          refine stepKnows_of_none (hs.rebuild le_rfl ?_ rfl rfl) trivial
            (later_of_eq le_rfl rfl rfl rfl) (keepsStarts_of_eq rfl) fun _ h => by cases h
          cases ok with
          | false => exact Or.inl rfl
          | true =>
              by_cases htf : tf = "1m"
              · exact Or.inr (by rw [htf]; rfl)
              · exact Or.inl (by rw [if_pos rfl, HistoricalParquet.rebuild, if_neg htf])
      | _ => rintro ⟨⟩
  | existing _ => cases move <;> rintro ⟨⟩
  | raised => cases move <;> rintro ⟨⟩
  | finished _ => cases move <;> rintro ⟨⟩
  | rebuildDone => cases move <;> rintro ⟨⟩

/-! ### Runs -/

/-- The requests are for candles of one minute. -/
def OneMinute : TaskLabel SyncRequest SyncAnswer (List (String × SyncJob)) → Prop
  | .enter (.startJob tf _ _) => tf = "1m"
  | _ => True

theorem heldApart_symm (t u : SyncTask) (h : HeldApart t u) : HeldApart u t :=
  fun run run' hrun hrun' ym hym hym' => h run' run hrun' hrun ym hym' hym

/-- A step keeps what the jobs know, beside the accounts. -/
theorem step_knows {p q : TaskPool SyncShared SyncTask}
    {l : TaskLabel SyncRequest SyncAnswer (List (String × SyncJob))}
    (hp : p.Inv (Grounded env base) (TaskKnows base) HeldApart)
    (hinv : p.Inv (LastRuns env) (TaskInv env) SyncTask.Apart) (hl : OneMinute l)
    (h : (system env).step p l = some q) :
    q.Inv (Grounded env base) (TaskKnows base) HeldApart := by
  refine TaskSystem.step_inv
    (P := fun p l => p.Inv (LastRuns env) (TaskInv env) SyncTask.Apart ∧ OneMinute l)
    ⟨heldApart_symm, ?_, ?_, ?_⟩ hp ⟨hinv, hl⟩ h
  · intro p r s' t hp hminute henter
    cases r with
    | startJob tf fromDate toDate =>
        cases henter
        exact ⟨hp.shared, hminute.2, fun u hu => ⟨hp.mem hu, fun _ _ hv => by cases hv⟩⟩
    | rebuild tf =>
        cases henter
        exact ⟨hp.shared, trivial, fun u hu => ⟨hp.mem hu, fun _ _ hv => by cases hv⟩⟩
  · intro p i a t s' t' hp hinv ht hresume
    change resume env p.shared t a = some (s', t') at hresume
    rw [resume] at hresume
    split at hresume
    · next hclock =>
        have hl : Later p.shared { p.shared with clock := a.now } none :=
          later_of_eq hclock rfl rfl rfl
        have hlater : ∀ u, TaskKnows base p.shared u →
            TaskKnows base { p.shared with clock := a.now } u := fun u hu =>
          hu.later hl (keepsStarts_of_eq rfl) fun _ _ _ h => by cases h
        have hknows : StepKnows env base { p.shared with clock := a.now } s' t t' :=
          stepKnows_resumeAt (hp.shared.rebuild hclock (Or.inl rfl) rfl rfl)
            (hlater t (hp.task i t ht)) (taskInv_clock (hinv.1.task i t ht)) hresume
        refine ⟨hknows.grounded, hknows.task, fun j u hij hu => ?_⟩
        exact hknows.others u (hp.pair i j t u (Ne.symm hij) ht hu) (hlater u (hp.task j u hu))
    · cases hresume
  · intro p stored s' hp _ hrestart
    cases hrestart
    exact hp.shared.rebuild le_rfl (Or.inl rfl) rfl rfl

theorem grounded_start (disk : HistoricalParquet) (stored : List (String × SyncJob)) :
    Grounded env disk (start disk stored).shared :=
  ⟨fun _ _ h => (by cases h), fun _ _ h => (by cases h), fun _ _ => rfl, fun _ h => Or.inr (Or.inl h)⟩

/-- Both kinds of invariants hold after every run. -/
theorem exec_knows {stored : List (String × SyncJob)}
    {ls : List (TaskLabel SyncRequest SyncAnswer (List (String × SyncJob)))}
    {p : TaskPool SyncShared SyncTask} (hminutes : ∀ l ∈ ls, OneMinute l)
    (hmeets : Transition.Meets (system env).step (SomeWorker env) (start base stored) ls)
    (h : Transition.exec (system env).step (start base stored) ls = some p) :
    p.Inv (LastRuns env) (TaskInv env) SyncTask.Apart ∧
      p.Inv (Grounded env base) (TaskKnows base) HeldApart :=
  Transition.exec_invariant_of_meets
    (I := fun p => p.Inv (LastRuns env) (TaskInv env) SyncTask.Apart ∧
      p.Inv (Grounded env base) (TaskKnows base) HeldApart)
    (fun _ _ _ hp hl hstep => ⟨step_inv hp.1 hl.1 hstep, step_knows hp.2 hp.1 hl.2 hstep⟩)
    ⟨inv_start base stored, TaskPool.inv_of_nil (grounded_start base stored)⟩
    (hmeets.and (Transition.meets_of_forall hminutes _)) h

/-- The disk has what was offered for a month at a time. -/
def Holds (env : SyncEnv) (s : SyncShared) (ym : ℕ × ℕ) (now : ℕ) : Prop :=
  ∀ c ∈ env.offered now ym, ∃ rows, s.disk.files.get? ym = some (some rows) ∧ c ∈ rows

/-- The source was asked for a month at a time, and its answer was the last one that was written, or
that was empty. -/
def Asked (s : SyncShared) (ym : ℕ × ℕ) (asked : ℕ) : Prop :=
  s.written.get? ym = some asked ∨ s.emptied.get? ym = some asked

/-- The disk has what the source offered when it was asked. -/
theorem Grounded.holds {asked : ℕ} (hs : Grounded env base s) (h : Asked s ym asked) :
    Holds env s ym asked := by
  intro c hc
  obtain hwritten | hemptied := h
  · obtain ⟨-, rows, -, hfile, hall⟩ := hs.written ym asked hwritten
    exact ⟨rows, hfile, hall c hc⟩
  · obtain ⟨-, hnothing⟩ := hs.emptied ym asked hemptied
    rw [hnothing] at hc
    cases hc

theorem Holds.mono {now now' : ℕ}
    (hgrow : ∀ t t' ym, t ≤ t' → ∀ c ∈ env.offered t ym, c ∈ env.offered t' ym) (hle : now ≤ now')
    (h : Holds env s ym now') : Holds env s ym now :=
  fun c hc => h c (hgrow now now' ym hle c hc)

/-- A month that is there has what was offered since a time, or when it was last asked for. -/
theorem Grounded.holds_of_present (hs : Grounded env base s)
    (hgrow : ∀ t t' ym, t ≤ t' → ∀ c ∈ env.offered t ym, c ∈ env.offered t' ym)
    (h : Present base s ym) (now : ℕ) :
    Holds env s ym now ∨ (∃ asked < now, Asked s ym asked ∧ Holds env s ym asked) ∨
      base.hasMonth ym = true ∨ EmptyIn base ym := by
  have hasked : ∀ t, Asked s ym t →
      Holds env s ym now ∨ (∃ asked < now, Asked s ym asked ∧ Holds env s ym asked) := by
    intro t ht
    rcases Nat.lt_or_ge t now with hlt | hge
    · exact Or.inr ⟨t, hlt, ht, hs.holds ht⟩
    · exact Or.inl ((hs.holds ht).mono hgrow hge)
  obtain ⟨t, ht⟩ | ⟨t, ht⟩ | hbase := h
  · exact (hasked t (Or.inl ht)).imp id Or.inl
  · exact (hasked t (Or.inr ht)).imp id Or.inl
  · exact Or.inr (Or.inr hbase)

/-- When a job is done, the disk has for every month of its range what was offered when the job was
started; or else the job skipped the month, and then the disk has what was offered when the month
was last asked for, before the job was started, if it was not there in the first place. -/
theorem done_holds (env : SyncEnv)
    (hgrow : ∀ t t' ym, t ≤ t' → ∀ c ∈ env.offered t ym, c ∈ env.offered t' ym)
    (disk : HistoricalParquet) (stored : List (String × SyncJob))
    (ls : List (TaskLabel SyncRequest SyncAnswer (List (String × SyncJob))))
    (p : TaskPool SyncShared SyncTask) (hminutes : ∀ l ∈ ls, OneMinute l)
    (hmeets : Transition.Meets (system env).step (SomeWorker env) (start disk stored) ls)
    (h : Transition.exec (system env).step (start disk stored) ls = some p)
    (run : SyncRun) (job : SyncJob) (range : List (ℕ × ℕ)) (hrun : .finished run ∈ p.tasks)
    (hjob : p.shared.jobs.get? run.jobId = some job) (hrange : rangeOf env job = some range)
    (hdone : job.status = .done) :
    ∀ ym ∈ range, Holds env p.shared ym job.startedAt ∨
      ((ym ∈ run.known ∨ (ym, .skipped) ∈ run.counted) ∧
        ((∃ asked < job.startedAt, Asked p.shared ym asked ∧ Holds env p.shared ym asked) ∨
          disk.hasMonth ym = true ∨ EmptyIn disk ym)) := by
  intro ym hym
  obtain ⟨hinv, hknows⟩ := exec_knows hminutes hmeets h
  have hs := hknows.shared
  obtain ⟨job', hjob', hrunknows⟩ := hknows.mem hrun
  obtain ⟨job'', range', hjob'', hrange', haccounts, -, -, -, hover⟩ :=
    (hinv.mem hrun).accounted rfl
  obtain rfl : job' = job := Option.some.inj (hjob'.symm.trans hjob)
  obtain rfl : job'' = job' := Option.some.inj (hjob''.symm.trans hjob')
  obtain rfl : range' = range := Option.some.inj (hrange'.symm.trans hrange)
  obtain ⟨hmonths, -, hfailed⟩ := hover (by rw [hdone]; exact fun h => by cases h)
  rcases List.mem_append.1 (hmonths.mem_iff.2 hym) with hknown | hcounted
  · obtain hholds | hbefore := hs.holds_of_present hgrow (hrunknows.known ym hknown) job''.startedAt
    · exact Or.inl hholds
    · exact Or.inr ⟨Or.inl hknown, hbefore⟩
  · obtain ⟨⟨_, outcome⟩, hmem, rfl⟩ := List.mem_map.1 hcounted
    have hoftype := hrunknows.counted _ hmem
    cases outcome with
    | done =>
        obtain ⟨t, hle, ht⟩ := hoftype
        exact Or.inl ((hs.holds (Or.inl ht)).mono hgrow hle)
    | empty =>
        obtain ⟨t, hle, ht⟩ := hoftype
        exact Or.inl ((hs.holds (Or.inr ht)).mono hgrow hle)
    | skipped =>
        obtain hholds | hbefore := hs.holds_of_present hgrow hoftype job''.startedAt
        · exact Or.inl hholds
        · exact Or.inr ⟨Or.inr hmem, hbefore⟩
    | failed =>
        have hnone := haccounts.failed.symm.trans (hfailed.1 hdone)
        exact absurd (decide_eq_true rfl) (List.countP_eq_zero.1 hnone _ hmem)

/-- A source whose month is in progress: it has a second candle from time 1 on. -/
def growingEnv : SyncEnv where
  symbol := "EURUSD"
  workers := 1
  digest := id
  fromisoformat date := if date = "2024-01-31" then some (2024, 1) else none
  offered now _ :=
    if now = 0 then [⟨0, 1, 1, 1, 1, 0⟩] else [⟨0, 1, 1, 1, 1, 0⟩, ⟨60, 1, 1, 1, 1, 0⟩]

theorem growingEnv_grows : ∀ t t' ym, t ≤ t' →
    ∀ c ∈ growingEnv.offered t ym, c ∈ growingEnv.offered t' ym := by
  intro t t' ym hle c hc
  dsimp only [growingEnv] at hc ⊢
  split at hc
  · rw [List.mem_singleton.1 hc]
    split
    · exact List.mem_cons_self
    · exact List.mem_cons_self
  · next hpos => rwa [if_neg (by omega)]

/-- A job for the month at time 0, and another one at time 1. -/
def inProgress : List (TaskLabel SyncRequest SyncAnswer (List (String × SyncJob))) :=
  [.enter (.startJob "1m" "2024-01-31" "2024-01-31"), .resume 0 ⟨0, .acquire⟩,
    .resume 0 ⟨0, .rebuilt true "a"⟩, .resume 0 ⟨0, .run⟩, .resume 0 ⟨0, .worker 0 (.go true)⟩,
    .resume 0 ⟨0, .worker 0 (.locked true true)⟩,
    .resume 0 ⟨0, .worker 0 (.answer [⟨0, 1, 1, 1, 1, 0⟩] true true (.accepts false))⟩,
    .resume 0 ⟨0, .worker 0 (.go true)⟩, .resume 0 ⟨0, .worker 0 (.go true)⟩,
    .resume 0 ⟨0, .worker 0 (.go true)⟩, .resume 0 ⟨0, .gathered⟩,
    .resume 0 ⟨0, .rebuilt true ""⟩,
    .enter (.startJob "1m" "2024-01-31" "2024-01-31"), .resume 1 ⟨1, .acquire⟩,
    .resume 1 ⟨1, .rebuilt true "b"⟩, .resume 1 ⟨1, .run⟩]

theorem done_holds_inProgress : ∃ p run job,
    Transition.exec (system growingEnv).step (start ⟨Dict.empty, none⟩ []) inProgress = some p ∧
      p.tasks[0]? = some (.finished run) ∧ p.shared.jobs.get? run.jobId = some job ∧
      job.status = .done ∧ Holds growingEnv p.shared (2024, 1) job.startedAt := by
  refine ⟨_, _, _, rfl, rfl, rfl, rfl, ?_⟩
  have hholds := done_holds growingEnv growingEnv_grows ⟨Dict.empty, none⟩ [] inProgress _
    (by simp [inProgress, OneMinute]) (meets_someWorker (by decide) _ _) rfl _ _ [(2024, 1)]
    (List.mem_of_getElem? (i := 0) rfl) rfl rfl rfl (2024, 1) List.mem_cons_self
  refine hholds.resolve_right fun h => ?_
  exact absurd h.1 (by decide)

/-- The second job skips the month, and is done without the second candle. -/
theorem month_in_progress : ∃ p run job,
    (∀ t t' ym, t ≤ t' → ∀ c ∈ growingEnv.offered t ym, c ∈ growingEnv.offered t' ym) ∧
      Transition.exec (system growingEnv).step (start ⟨Dict.empty, none⟩ []) inProgress = some p ∧
      p.tasks[1]? = some (.finished run) ∧ p.shared.jobs.get? run.jobId = some job ∧
      rangeOf growingEnv job = some [(2024, 1)] ∧ job.status = .done ∧ job.startedAt = 1 ∧
      ¬ Holds growingEnv p.shared (2024, 1) job.startedAt := by
  refine ⟨_, _, _, growingEnv_grows, rfl, rfl, rfl, rfl, rfl, rfl, fun h => ?_⟩
  obtain ⟨rows, hfile, hmem⟩ := h ⟨60, 1, 1, 1, 1, 0⟩ (by decide)
  cases hfile
  exact absurd hmem (by decide)

end SyncManager
