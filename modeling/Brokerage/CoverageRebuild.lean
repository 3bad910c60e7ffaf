/-
**The index that is kept up, and the one that is rebuilt.**

The index of the months is kept up by marking: a job marks the months that it has written, and those
of which the source has nothing.  A rebuild replaces it by what the files say.  A month of which the
source has nothing has no file, so a rebuild forgets its mark, and the next job asks for it again;
and a month that was written without being marked, because that failed or because the quality gate
rejected the file, is marked by the rebuild.

So a rebuild leaves the index as it is just if every month with a mark has a file that says the
same, and every month with a file has a mark.  That a month marked as done has a file with rows, and
that no month is marked as failed, holds in any case: it is kept by every step of the jobs.

Main definitions:

* `HistoricalParquet.WellMarked` — the months that are marked as done have rows;
* `SyncManager.Agrees` — what is claimed of a rebuild.

Main results:

* `SyncManager.exec_wellMarked` — the marks are right after every run;
* `SyncManager.rebuild_agrees_iff` — when a rebuild leaves the index as it is;
* `SyncManager.empty_forgotten` — a month without candles, and the rebuild at the end of its job.
-/

import Brokerage.SyncCompleteness

set_option relaxedAutoImplicit false
set_option autoImplicit false

namespace HistoricalParquet

variable {d d' : HistoricalParquet} {ym ym' : ℕ × ℕ}

/-! ### Marks and files -/

/-- The months that are marked as done have rows, and none is marked as failed. -/
structure WellMarked (d : HistoricalParquet) : Prop where
  done : ∀ ym, d.status ym = some .done → d.hasMonth ym = true
  failed : ∀ ym, d.status ym ≠ some .failed

theorem hasMonth_of_files (h : d'.files = d.files) : d'.hasMonth ym = d.hasMonth ym := by
  rw [hasMonth, hasMonth, h]

/-- After a file with rows was written, its month has rows, and the others have what they had. -/
theorem hasMonth_set {candles : List OhlcvRow} (hrows : candles ≠ []) :
    hasMonth { d with files := d.files.set ym (some candles) } ym' =
      if ym' = ym then true else d.hasMonth ym' := by
  rw [hasMonth, hasMonth]
  dsimp only
  rw [Dict.get?_set]
  split_ifs
  · cases candles with
    | nil => exact absurd rfl hrows
    | cons row rows => rfl
  · rfl

/-- What a file says of its month. -/
theorem status_monthInfo {file : ParquetFile} (h : d.files.get? ym = some file) :
    (monthInfo file).status = if d.hasMonth ym = true then .done else .empty := by
  rw [hasMonth, h]
  cases file with
  | none => rfl
  | some rows =>
      cases rows with
      | nil => rfl
      | cons row rows => rfl

/-- Rebuilding leaves the marks right. -/
theorem WellMarked.rebuild (h : d.WellMarked) (tf : String) : (d.rebuild tf).store.WellMarked := by
  by_cases htf : tf = "1m"
  · subst htf
    have hstatus : ∀ ym status, (d.rebuild "1m").store.status ym = some status →
        status = if d.hasMonth ym = true then .done else .empty := by
      intro ym status hstatus
      rw [status_rebuild] at hstatus
      obtain ⟨file, hfile, heq⟩ := Option.map_eq_some_iff.1 hstatus
      rw [← heq, status_monthInfo hfile]
    refine ⟨fun ym hdone => ?_, fun ym hfailed => ?_⟩
    · rw [hasMonth_of_files (d.files_rebuild "1m")]
      have heq := hstatus ym _ hdone
      split at heq
      · next hmonth => exact hmonth
      · cases heq
    · have heq := hstatus ym _ hfailed
      split at heq <;> cases heq
  · rwa [HistoricalParquet.rebuild, if_neg htf]

/-- A second rebuild leaves the statuses of the first one. -/
theorem status_rebuild_rebuild (d : HistoricalParquet) (ym : ℕ × ℕ) :
    ((d.rebuild "1m").store.rebuild "1m").store.status ym = (d.rebuild "1m").store.status ym := by
  rw [status_rebuild, status_rebuild, files_rebuild]

theorem wellMarked_empty : (⟨Dict.empty, none⟩ : HistoricalParquet).WellMarked :=
  ⟨fun _ h => (by cases h), fun _ h => by cases h⟩

/-- When the files and the marks say the same of every month. -/
theorem status_rebuild_eq_iff (h : d.WellMarked) :
    (∀ ym, (d.rebuild "1m").store.status ym = d.status ym) ↔
      (∀ ym, d.status ym = some .empty → d.files.contains ym = true ∧ d.hasMonth ym = false) ∧
        ∀ ym, d.files.contains ym = true →
          d.status ym = some (if d.hasMonth ym = true then .done else .empty) := by
  constructor
  · intro hsame
    refine ⟨fun ym hempty => ?_, fun ym hfile => ?_⟩
    · have hstatus := hsame ym
      rw [status_rebuild, hempty] at hstatus
      obtain ⟨file, hfile, heq⟩ := Option.map_eq_some_iff.1 hstatus
      rw [status_monthInfo hfile] at heq
      refine ⟨by rw [Dict.contains, hfile]; rfl, ?_⟩
      split at heq
      · cases heq
      · next hmonth => exact Bool.eq_false_iff.2 hmonth
    · rw [Dict.contains] at hfile
      obtain ⟨file, hget⟩ := Option.isSome_iff_exists.1 hfile
      rw [← hsame ym, status_rebuild, hget, ← status_monthInfo hget]
      rfl
  · rintro ⟨hempty, hfiles⟩ ym
    rw [status_rebuild]
    cases hget : d.files.get? ym with
    | some file =>
        rw [hfiles ym (by rw [Dict.contains, hget]; rfl), ← status_monthInfo hget]
        rfl
    | none =>
        have hnone : d.hasMonth ym = false := by rw [hasMonth, hget]
        cases hstatus : d.status ym with
        | none => rfl
        | some status =>
            cases status with
            | done => cases hnone.symm.trans (h.done ym hstatus)
            | failed => exact absurd hstatus (h.failed ym)
            | empty =>
                have hfile := (hempty ym hstatus).1
                rw [Dict.contains, hget] at hfile
                cases hfile

end HistoricalParquet

namespace SyncManager

variable {env : SyncEnv} {s s' : SyncShared} {run run' : SyncRun} {k : ℕ} {w w' : WorkerAt}
  {t t' : SyncTask}

/-! ### Marks and workers -/

/-- A worker that has written a month finds rows there. -/
def WroteRows (s : SyncShared) (w : WorkerAt) : Prop :=
  ∀ ym, w.wrote = some ym → s.disk.hasMonth ym = true

/-- What a step of a worker leaves right, and what it keeps of the files. -/
theorem DiskStep.wellMarked (h : DiskStep env s s' w w') (hs : s.disk.WellMarked)
    (hw : WroteRows s w) :
    s'.disk.WellMarked ∧ (∀ ym, s.disk.hasMonth ym = true → s'.disk.hasMonth ym = true) ∧
      WroteRows s' w' := by
  cases h with
  | keeps hdisk _ _ hwrote =>
      rw [WroteRows, hdisk]
      refine ⟨hs, fun _ => id, fun ym hym => ?_⟩
      obtain hnone | hsame := hwrote
      · cases hnone.symm.trans hym
      · exact hw ym (hsame ▸ hym)
  | empties ym _ _ _ _ _ hdisk _ _ hwrote =>
      have hmonth : ∀ ym, s'.disk.hasMonth ym = s.disk.hasMonth ym := fun ym' => by
        obtain hdisk | hdisk := hdisk
        · rw [hdisk]
        · rw [hdisk]
          rfl
      refine ⟨?_, fun ym' => (hmonth ym').trans, fun ym' hym => by cases hwrote.symm.trans hym⟩
      obtain hdisk | hdisk := hdisk
      · rwa [hdisk]
      · refine ⟨fun ym' hdone => ?_, fun ym' hfailed => ?_⟩
        · rw [hmonth]
          rw [hdisk, HistoricalParquet.markEmpty, HistoricalParquet.status_mark] at hdone
          split at hdone
          · cases hdone
          · exact hs.done ym' hdone
        · rw [hdisk, HistoricalParquet.markEmpty, HistoricalParquet.status_mark] at hfailed
          split at hfailed
          · cases hfailed
          · exact hs.failed ym' hfailed
  | writes ym _ _ _ candles _ hrows _ hdisk _ _ hwrote =>
      have hmonth : ∀ ym', s'.disk.hasMonth ym' = if ym' = ym then true else s.disk.hasMonth ym' :=
        fun ym' => by rw [hdisk, HistoricalParquet.hasMonth_set hrows]
      have hkeeps : ∀ ym', s.disk.hasMonth ym' = true → s'.disk.hasMonth ym' = true := by
        intro ym' hym
        rw [hmonth]
        split_ifs
        · rfl
        · exact hym
      have hstatus : ∀ ym', s'.disk.status ym' = s.disk.status ym' := fun ym' => by
        rw [hdisk]
        rfl
      refine ⟨⟨fun ym' hdone => ?_, fun ym' => ?_⟩, hkeeps, fun ym' hym => ?_⟩
      · exact hkeeps ym' (hs.done ym' ((hstatus ym').symm.trans hdone))
      · rw [hstatus]
        exact hs.failed ym'
      · obtain hnone | hsome := hwrote
        · cases hnone.symm.trans hym
        · rw [hmonth, if_pos (Option.some.inj (hym.symm.trans hsome))]
  | marks ym entry hfrom hdone hdisk _ _ hwrote =>
      have hmonth : ∀ ym', s'.disk.hasMonth ym' = s.disk.hasMonth ym' := fun ym' => by
        rw [hdisk]
        rfl
      refine ⟨⟨fun ym' hdone' => ?_, fun ym' hfailed => ?_⟩, fun ym' => (hmonth ym').trans,
        fun ym' hym => by cases hwrote.symm.trans hym⟩
      · rw [hmonth]
        rw [hdisk, HistoricalParquet.status_mark] at hdone'
        split at hdone'
        · next heq => exact hw ym' (heq ▸ hfrom)
        · exact hs.done ym' hdone'
      · rw [hdisk, HistoricalParquet.status_mark] at hfailed
        split at hfailed
        · rw [hdone] at hfailed
          cases hfailed
        · exact hs.failed ym' hfailed

/-! ### Marks and jobs -/

/-- The workers of a task that have written a month find rows there. -/
def TaskWrote (s : SyncShared) (t : SyncTask) : Prop :=
  ∀ run, t.run? = some run → ∀ w ∈ run.workers, WroteRows s w

/-- A step of a task is a step of a worker; or it rebuilds the index at most, and the workers are
those that there were, or have not begun. -/
theorem resumeAt_disk {move : SyncMove} (h : resumeAt env s t move = some (s', t')) :
    (∃ run run' k w, t = .running run ∧ t' = .running run' ∧ run.workers[k]? = some w ∧
        ∃ w', WorkerEffect env s s' run run' k w w') ∨
      (s'.disk = s.disk ∨ ∃ tf, s'.disk = (s.disk.rebuild tf).store) ∧
        ∀ run', t'.run? = some run' → t.run? = some run' ∨ ∀ w ∈ run'.workers, w = .taking := by
  revert h
  cases t with
  | starting tf fromDate toDate =>
      cases move with
      | acquire =>
          rw [resumeAt]
          split
          · rintro ⟨⟩
          · rw [acquire]
            split
            · rintro ⟨⟩
              exact Or.inr ⟨Or.inl rfl, fun _ h => by cases h⟩
            · split
              · rintro ⟨⟩
                exact Or.inr ⟨Or.inl rfl, fun _ h => by cases h⟩
              · rintro ⟨⟩
                exact Or.inr ⟨Or.inl rfl, fun _ h => by cases h⟩
      | _ => rintro ⟨⟩
  | rebuilding tf fromDate toDate =>
      cases move with
      | rebuilt ok jobId =>
          cases ok with
          | false =>
              rintro ⟨⟩
              exact Or.inr ⟨Or.inl rfl, fun _ h => by cases h⟩
          | true =>
              rw [resumeAt, startJob]
              dsimp only
              split
              · split
                · rintro ⟨⟩
                · rintro ⟨⟩
                  refine Or.inr ⟨Or.inr ⟨tf, rfl⟩, fun run' hrun => Or.inr fun w hw => ?_⟩
                  cases hrun
                  cases hw
              · rintro ⟨⟩
                exact Or.inr ⟨Or.inr ⟨tf, rfl⟩, fun _ h => by cases h⟩
      | _ => rintro ⟨⟩
  | scheduled run =>
      cases move with
      | run =>
          rw [resumeAt, runJob]
          split
          · obtain ⟨jobs, hjobs, -⟩ := updateJob_spec s run.jobId fun job =>
              { job with status := .done }
            rw [hjobs]
            rintro ⟨⟩
            exact Or.inr ⟨Or.inl rfl, fun _ hrun => Or.inl hrun⟩
          · rintro ⟨⟩
            refine Or.inr ⟨Or.inl rfl, fun run' hrun => Or.inr fun w hw => ?_⟩
            cases hrun
            exact List.eq_of_mem_replicate hw
      | _ => rintro ⟨⟩
  | running run =>
      cases move with
      | worker k move =>
          rw [resumeAt]
          cases hw : run.workers[k]? with
          | none => rintro ⟨⟩
          | some w =>
              dsimp only
              intro h
              obtain ⟨⟨s'', run'⟩, hresume, heq⟩ := Option.map_eq_some_iff.1 h
              obtain ⟨rfl, rfl⟩ := Prod.mk.inj heq
              exact Or.inl ⟨run, run', k, w, rfl, rfl, hw, resumeWorker_effect hresume⟩
      | gathered =>
          rw [resumeAt]
          split
          · rintro ⟨⟩
            exact Or.inr ⟨Or.inl rfl, fun _ hrun => Or.inl hrun⟩
          · rintro ⟨⟩
      | _ => rintro ⟨⟩
  | finishing run =>
      cases move with
      | rebuilt ok jobId =>
          obtain ⟨jobs, hfinish, -⟩ := finishJob_spec s run ok
          rw [resumeAt, hfinish]
          rintro ⟨⟩
          refine Or.inr ⟨?_, fun _ hrun => Or.inl hrun⟩
          cases ok with
          | false => exact Or.inl rfl
          | true => exact Or.inr ⟨run.tf, rfl⟩
      | _ => rintro ⟨⟩
  | rebuildCall tf =>
      cases move with
      | rebuilt ok jobId =>
          rintro ⟨⟩
          refine Or.inr ⟨?_, fun _ h => by cases h⟩
          cases ok with
          | false => exact Or.inl rfl
          | true => exact Or.inr ⟨tf, rfl⟩
      | _ => rintro ⟨⟩
  | existing _ => cases move <;> rintro ⟨⟩
  | raised => cases move <;> rintro ⟨⟩
  | finished _ => cases move <;> rintro ⟨⟩
  | rebuildDone => cases move <;> rintro ⟨⟩

/-- The steps of a task leave the marks right. -/
theorem resumeAt_wellMarked {move : SyncMove} (hs : s.disk.WellMarked) (ht : TaskWrote s t)
    (h : resumeAt env s t move = some (s', t')) :
    s'.disk.WellMarked ∧ (∀ ym, s.disk.hasMonth ym = true → s'.disk.hasMonth ym = true) ∧
      TaskWrote s' t' := by
  obtain ⟨run, run', k, w, rfl, rfl, hw, w', heffect⟩ | ⟨hdisk, hrun⟩ := resumeAt_disk h
  · have hwmem := List.mem_of_getElem? hw
    obtain ⟨hmarked, hkeeps, hwrote⟩ := heffect.disk.wellMarked hs (ht run rfl w hwmem)
    refine ⟨hmarked, hkeeps, fun _ hrun v hv ym hym => ?_⟩
    cases hrun
    rw [heffect.workers] at hv
    obtain hold | rfl := List.mem_or_eq_of_mem_set hv
    · exact hkeeps ym (ht run rfl v hold ym hym)
    · exact hwrote ym hym
  · have hfiles : s'.disk.files = s.disk.files := by
      obtain hdisk | ⟨tf, hdisk⟩ := hdisk
      · rw [hdisk]
      · rw [hdisk, HistoricalParquet.files_rebuild]
    have hmonth : ∀ ym, s'.disk.hasMonth ym = s.disk.hasMonth ym := fun ym =>
      HistoricalParquet.hasMonth_of_files hfiles
    refine ⟨?_, fun ym => (hmonth ym).trans, fun run' hrun' v hv ym hym => ?_⟩
    · obtain hdisk | ⟨tf, hdisk⟩ := hdisk
      · rwa [hdisk]
      · rw [hdisk]
        exact hs.rebuild tf
    · obtain hold | hnew := hrun run' hrun'
      · exact (hmonth ym).trans (ht run' hold v hv ym hym)
      · rw [hnew v hv] at hym
        cases hym

/-- The marks are right after every run. -/
theorem exec_wellMarked {disk : HistoricalParquet} (hdisk : disk.WellMarked)
    {stored : List (String × SyncJob)}
    {ls : List (TaskLabel SyncRequest SyncAnswer (List (String × SyncJob)))}
    {p : TaskPool SyncShared SyncTask}
    (h : Transition.exec (system env).step (start disk stored) ls = some p) :
    p.shared.disk.WellMarked := by
  have hinv : p.Inv (fun s => s.disk.WellMarked) TaskWrote (fun _ _ => True) := by
    refine TaskSystem.exec_inv (P := fun _ _ => True) ⟨fun _ _ _ => trivial, ?_, ?_, ?_⟩
      (TaskPool.inv_of_nil hdisk) (Transition.meets_of_always (fun _ _ => trivial) _ _) h
    · intro p r s' t hp _ henter
      cases r with
      | startJob tf fromDate toDate =>
          cases henter
          exact ⟨hp.shared, fun _ h => (by cases h), fun u hu => ⟨hp.mem hu, trivial⟩⟩
      | rebuild tf =>
          cases henter
          exact ⟨hp.shared, fun _ h => (by cases h), fun u hu => ⟨hp.mem hu, trivial⟩⟩
    · intro p i a t s' t' hp _ ht hresume
      change resume env p.shared t a = some (s', t') at hresume
      rw [resume] at hresume
      split at hresume
      · obtain ⟨hmarked, hkeeps, htask⟩ := resumeAt_wellMarked
          (s := { p.shared with clock := a.now }) hp.shared (hp.task i t ht) hresume
        exact ⟨hmarked, htask, fun j u _ hu => ⟨fun run hrun w hw ym hym =>
          hkeeps ym (hp.task j u hu run hrun w hw ym hym), trivial⟩⟩
      · cases hresume
    · intro p stored s' hp _ hrestart
      cases hrestart
      exact hp.shared
  exact hinv.shared

/-! ### What a rebuild leaves as it is -/

/-- What is claimed of a rebuild: every month keeps its status; a job that comes to a month marked
as empty skips it; and a second rebuild finds nothing to change. -/
structure Agrees (s : SyncShared) : Prop where
  status : ∀ ym, (s.disk.rebuild "1m").store.status ym = s.disk.status ym
  skips : ∀ ym, s.disk.status ym = some .empty → ∀ run k,
    (checkMonth { s with disk := (s.disk.rebuild "1m").store } run k ym true).2 =
      run.put k (.counting ym .skipped true)
  again : ((s.disk.rebuild "1m").store.rebuild "1m").changed = false

/-- A worker that can read the index skips a month that is marked as empty. -/
theorem checkMonth_empty {ym : ℕ × ℕ} (h : s.disk.status ym = some .empty) (run : SyncRun)
    (k : ℕ) : (checkMonth s run k ym true).2 = run.put k (.counting ym .skipped true) := by
  rw [checkMonth]
  dsimp only
  split
  · rfl
  · rw [if_pos ⟨rfl, h⟩]

/-- At every moment of every run, a rebuild does as claimed just if the months that are marked as
empty have a file without rows, the months that have a file are marked, and there is an index or a
file. -/
theorem rebuild_agrees_iff (env : SyncEnv) (disk : HistoricalParquet) (hdisk : disk.WellMarked)
    (stored : List (String × SyncJob))
    (ls : List (TaskLabel SyncRequest SyncAnswer (List (String × SyncJob))))
    (p : TaskPool SyncShared SyncTask)
    (h : Transition.exec (system env).step (start disk stored) ls = some p) :
    Agrees p.shared ↔
      (∀ ym, p.shared.disk.status ym = some .empty →
        p.shared.disk.files.contains ym = true ∧ p.shared.disk.hasMonth ym = false) ∧
      (∀ ym, p.shared.disk.files.contains ym = true → p.shared.disk.status ym =
        some (if p.shared.disk.hasMonth ym = true then .done else .empty)) ∧
      (p.shared.disk.index.isSome = true ∨ p.shared.disk.files.entries ≠ []) := by
  have hstatus := HistoricalParquet.status_rebuild_eq_iff (exec_wellMarked hdisk h)
  have hagain := p.shared.disk.changed_rebuild_rebuild
  constructor
  · rintro ⟨hsame, -, hchanged⟩
    obtain ⟨hempty, hfiles⟩ := hstatus.1 hsame
    exact ⟨hempty, hfiles, hagain.1 hchanged⟩
  · rintro ⟨hempty, hfiles, hsome⟩
    have hsame := hstatus.2 ⟨hempty, hfiles⟩
    refine ⟨hsame, fun ym hym run k => checkMonth_empty ?_ run k, hagain.2 hsome⟩
    exact (hsame ym).trans hym

/-- The first of the two jobs for a month in progress ends with a rebuild; another one would leave
the index as it is. -/
theorem rebuild_agrees_inProgress : ∃ q p,
    Transition.exec (system growingEnv).step (start ⟨Dict.empty, none⟩ []) (inProgress.take 11) =
        some q ∧
      Transition.exec (system growingEnv).step (start ⟨Dict.empty, none⟩ []) (inProgress.take 12) =
        some p ∧
      p.shared.disk = (q.shared.disk.rebuild "1m").store ∧ p.shared.disk.hasMonth (2024, 1) = true ∧
      Agrees p.shared := by
  have hruns : ∃ q p,
      Transition.exec (system growingEnv).step (start ⟨Dict.empty, none⟩ []) (inProgress.take 11) =
          some q ∧
        Transition.exec (system growingEnv).step (start ⟨Dict.empty, none⟩ [])
          (inProgress.take 12) = some p ∧
        p.shared.disk = (q.shared.disk.rebuild "1m").store ∧
        p.shared.disk.hasMonth (2024, 1) = true ∧ p.shared.disk.index.isSome = true :=
    ⟨_, _, rfl, rfl, rfl, rfl, rfl⟩
  obtain ⟨q, p, hq, hp, hdisk, hmonth, hindex⟩ := hruns
  have hsame := (HistoricalParquet.status_rebuild_eq_iff (exec_wellMarked
    HistoricalParquet.wellMarked_empty hp)).1 fun ym => by
      rw [hdisk, HistoricalParquet.status_rebuild_rebuild]
  exact ⟨q, p, hq, hp, hdisk, hmonth, (rebuild_agrees_iff growingEnv ⟨Dict.empty, none⟩
    HistoricalParquet.wellMarked_empty [] (inProgress.take 12) p hp).2
      ⟨hsame.1, hsame.2, Or.inl hindex⟩⟩

/-- A job for a month of which the source has nothing, and another one. -/
def nothingThere : List (TaskLabel SyncRequest SyncAnswer (List (String × SyncJob))) :=
  [.enter (.startJob "1m" "2024-01-01" "2024-01-01"), .resume 0 ⟨0, .acquire⟩,
    .resume 0 ⟨0, .rebuilt true "a"⟩, .resume 0 ⟨0, .run⟩, .resume 0 ⟨0, .worker 0 (.go true)⟩,
    .resume 0 ⟨0, .worker 0 (.locked true true)⟩,
    .resume 0 ⟨0, .worker 0 (.answer [] true true .raises)⟩,
    .resume 0 ⟨0, .worker 0 (.go true)⟩, .resume 0 ⟨0, .worker 0 (.go true)⟩,
    .resume 0 ⟨0, .gathered⟩, .resume 0 ⟨0, .rebuilt true ""⟩,
    .enter (.startJob "1m" "2024-01-01" "2024-01-01"), .resume 1 ⟨0, .acquire⟩,
    .resume 1 ⟨0, .rebuilt true "b"⟩, .resume 1 ⟨0, .run⟩, .resume 1 ⟨0, .worker 0 (.go true)⟩,
    .resume 1 ⟨0, .worker 0 (.locked true true)⟩]

/-- The month is marked as empty; the rebuild at the end of the job forgets that, and the next job
asks for the month again. -/
theorem empty_forgotten : ∃ q r p run,
    Transition.exec (system (smallEnv 1)).step (start ⟨Dict.empty, none⟩ [])
        (nothingThere.take 10) = some q ∧
      q.shared.disk.status (2024, 1) = some .empty ∧
      Transition.exec (system (smallEnv 1)).step (start ⟨Dict.empty, none⟩ [])
        (nothingThere.take 11) = some r ∧
      r.shared.disk.status (2024, 1) = none ∧
      Transition.exec (system (smallEnv 1)).step (start ⟨Dict.empty, none⟩ []) nothingThere =
        some p ∧
      p.tasks[1]? = some (.running run) ∧ run.workers = [.fetching (2024, 1) 0 0 0] ∧
      ¬ Agrees q.shared := by
  refine ⟨_, _, _, _, rfl, by decide, rfl, by decide, rfl, rfl, rfl, fun h => ?_⟩
  exact absurd (h.status (2024, 1)) (by decide)

end SyncManager
